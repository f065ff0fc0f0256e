import Unbundle.Digest.Blocks

namespace Unbundle.Digest.Sha1

structure State where
  (a b c d e : UInt32)
  deriving DecidableEq, Repr

def initial : State := ⟨0x67452301, 0xEFCDAB89, 0x98BADCFE, 0x10325476, 0xC3D2E1F0⟩

def nextWord (words : List UInt32) : UInt32 :=
  rotateLeft (words.getD 2 0 ^^^ words.getD 7 0 ^^^ words.getD 13 0 ^^^ words.getD 15 0) 1

def choice (x y z : UInt32) : UInt32 := (x &&& y) ||| (~~~x &&& z)

def parity (x y z : UInt32) : UInt32 := x ^^^ y ^^^ z

def majority (x y z : UInt32) : UInt32 := (x &&& y) ||| (x &&& z) ||| (y &&& z)

/-- One round, with its mixing function, its constant and its word. -/
def round (mix : UInt32 → UInt32 → UInt32 → UInt32) (constant : UInt32) (s : State)
    (word : UInt32) : State :=
  ⟨rotateLeft s.a 5 + mix s.b s.c s.d + s.e + constant + word, s.a, rotateLeft s.b 30, s.c, s.d⟩

def compress (state : State) (block : List UInt32) : State :=
  let words := schedule nextWord 64 block
  let s := (words.take 20).foldl (round choice 0x5A827999) state
  let s := ((words.drop 20).take 20).foldl (round parity 0x6ED9EBA1) s
  let s := ((words.drop 40).take 20).foldl (round majority 0x8F1BBCDC) s
  let s := (words.drop 60).foldl (round parity 0xCA62C1D6) s
  ⟨state.a + s.a, state.b + s.b, state.c + s.c, state.d + s.d, state.e + s.e⟩

/-- The digest of a message whose first bytes led to the given state. -/
def resume (state : State) (before : Nat) (message : Bytes) : Bytes :=
  let s := finish compress state before message
  ofWords [s.a, s.b, s.c, s.d, s.e]

def hash (message : Bytes) : Bytes := resume initial 0 message

theorem length_resume (state : State) (before : Nat) (message : Bytes) :
    (resume state before message).length = 20 := rfl

end Unbundle.Digest.Sha1
