import Unbundle.Bytes.Word32

namespace Unbundle.Digest

def blockSize : Nat := 64

/-- What follows a message of the given size, up to a whole number of blocks. -/
def closing (size : Nat) : Bytes :=
  0x80 :: List.replicate ((119 - size % blockSize) % blockSize) 0 ++
    Word32.encode (8 * size / Word32.size) ++ Word32.encode (8 * size)

/-- The big-endian words of a block; an incomplete last word is dropped. -/
def words : Bytes → List UInt32
  | a :: b :: c :: d :: rest => (Word32.ofBytes a b c d).toUInt32 :: words rest
  | _ => []

def ofWords (words : List UInt32) : Bytes := words.flatMap fun word => Word32.encode word.toNat

def rotateLeft (word amount : UInt32) : UInt32 := word <<< amount ||| word >>> (32 - amount)

def rotateRight (word amount : UInt32) : UInt32 := rotateLeft word (32 - amount)

/-- So many more words before the given ones, which have the newest first. -/
def extend (next : List UInt32 → UInt32) : Nat → List UInt32 → List UInt32
  | 0, words => words
  | count + 1, words => extend next count (next words :: words)

/-- The words of a block and those computed from them, oldest first. -/
def schedule (next : List UInt32 → UInt32) (count : Nat) (block : List UInt32) : List UInt32 :=
  (extend next count block.reverse).reverse

/-- The state after so many blocks. -/
def absorb {State : Type} (compress : State → List UInt32 → State) (state : State) :
    Nat → Bytes → State
  | 0, _ => state
  | count + 1, message =>
    absorb compress (compress state (words (message.take blockSize))) count
      (message.drop blockSize)

/-- The state after a whole message, of which the given number of bytes went in before. -/
def finish {State : Type} (compress : State → List UInt32 → State) (state : State) (before : Nat)
    (message : Bytes) : State :=
  let closed := message ++ closing (before + message.length)
  absorb compress state (closed.length / blockSize) closed

end Unbundle.Digest
