import Unbundle.Cipher.Aes

/-!
Chaining blocks, and padding a text to whole blocks. Main statement: opening a closed text gives
it back, also for a cipher that counts bytes in signed words, as long as the words hold the counts.
-/

namespace Unbundle.Cipher.Cbc

def blockLength : Nat := 16

def encryptBlocks (keys : List Block) (chain : Block) : List Block → List Block
  | [] => []
  | s :: rest =>
    let sealed := Aes.encryptBlock keys (s.add chain)
    sealed :: encryptBlocks keys sealed rest

def decryptBlocks (keys : List Block) (chain : Block) : List Block → List Block
  | [] => []
  | s :: rest => (Aes.decryptBlock keys s).add chain :: decryptBlocks keys s rest

private theorem decryptBlocks_encryptBlocks (keys : List Block) (chain : Block) (list : List Block)
    :
    decryptBlocks keys chain (encryptBlocks keys chain list) = list := by
  induction list generalizing chain with
  | nil => rfl
  | cons s rest ih =>
    simp [encryptBlocks, decryptBlocks, Aes.decryptBlock_encryptBlock, Block.add_add, ih]

/-- The text with its padding: from one to sixteen bytes, each of which is their number. -/
def pad (text : Bytes) : Bytes :=
  let count := blockLength - text.length % blockLength
  text ++ List.replicate count count.toUInt8

/-- The text without its padding, if that is right. -/
def unpad? (padded : Bytes) : Option Bytes := do
  let count := (← padded.getLast?).toNat
  let text := padded.take (padded.length - count)
  if 0 < count ∧ count ≤ blockLength ∧
      padded = text ++ List.replicate count count.toUInt8 then some text else none

/-- The first chain block; a missing one counts as zero. -/
def chainOf (iv : Bytes) : Block := (blocksOf iv).headD .zero

def encrypt (key iv text : Bytes) : Bytes :=
  (encryptBlocks (Aes.roundKeys key) (chainOf iv) (blocksOf (pad text))).flatMap Block.toBytes

/-- The text of whole cipher blocks, if its padding is right. -/
def decrypt? (key iv cipher : Bytes) : Option Bytes :=
  unpad? ((decryptBlocks (Aes.roundKeys key) (chainOf iv) (blocksOf cipher)).flatMap Block.toBytes)

/-- What a signed word of 32 bits holds of a number, if that does not come out negative. -/
def count? (n : Nat) : Option Nat :=
  let low := n % 0x100000000
  if low < 0x80000000 then some low else none

/-- As `encrypt`, counting in signed words: only the counted bytes are closed, and there must be a
word for the length of the result. -/
def encryptCounted? (key iv text : Bytes) : Option Bytes := do
  let closed := encrypt key iv (text.take (← count? text.length))
  if closed.length < 0x80000000 then some closed else none

private theorem length_pad (text : Bytes) :
    (pad text).length = (text.length / blockLength + 1) * blockLength := by
  simp only [pad, List.length_append, List.length_replicate, blockLength]
  omega

private theorem unpad?_pad (text : Bytes) : unpad? (pad text) = some text := by
  have below := @Nat.mod_lt text.length blockLength (by decide)
  simp only [pad, blockLength] at *
  generalize hcount : 16 - text.length % 16 = count
  have value : count.toUInt8.toNat = count := by
    simp only [Nat.toUInt8, UInt8.toNat_ofNat']; omega
  have last : (text ++ List.replicate count count.toUInt8).getLast? = some count.toUInt8 := by
    rw [List.getLast?_append, List.getLast?_replicate, if_neg (by omega)]; rfl
  have size : (text ++ List.replicate count count.toUInt8).length - count = text.length := by
    simp
  simp only [unpad?, last, Option.bind_eq_bind, Option.bind_some, value, size, blockLength,
    List.take_left']
  rw [if_pos ⟨by omega, by omega, trivial⟩]

private theorem length_encryptBlocks (keys : List Block) (chain : Block) (list : List Block) :
    (encryptBlocks keys chain list).length = list.length := by
  induction list generalizing chain with
  | nil => rfl
  | cons s rest ih => simp [encryptBlocks, ih]

theorem decrypt?_encrypt (key iv text : Bytes) :
    decrypt? key iv (encrypt key iv text) = some text := by
  rw [decrypt?, encrypt, blocksOf_flatMap, decryptBlocks_encryptBlocks,
    (flatMap_blocksOf (length_pad text)).1, unpad?_pad]

theorem length_encrypt (key iv text : Bytes) :
    (encrypt key iv text).length = (text.length / blockLength + 1) * blockLength := by
  simp only [encrypt, List.length_flatMap, Block.length_toBytes, List.map_const',
    List.sum_replicate_nat, length_encryptBlocks, (flatMap_blocksOf (length_pad text)).2, blockLength]

theorem count?_of_lt {n : Nat} (small : n < 0x80000000) : count? n = some n := by
  have low : n % 0x100000000 = n := Nat.mod_eq_of_lt (by omega)
  rw [count?, low]
  exact if_pos small

theorem encryptCounted?_of_lt {key iv text : Bytes}
    (small : (text.length / blockLength + 1) * blockLength < 0x80000000) :
    encryptCounted? key iv text = some (encrypt key iv text) := by
  have fits : text.length < 0x80000000 := by
    rw [blockLength] at small
    omega
  simp only [encryptCounted?, count?_of_lt fits, Option.bind_eq_bind, Option.bind_some,
    List.take_length, length_encrypt, if_pos small]

end Unbundle.Cipher.Cbc
