import Unbundle.Digest.Sha1

/-!
Keys from a password and a salt: PBKDF2 with HMAC-SHA1. Main statement: a key has the length that
was asked for, up to the two digests that are computed.
-/

namespace Unbundle.Digest

/-- The hash states after the two pads of a key. -/
structure Hmac where
  inner : Sha1.State
  outer : Sha1.State

namespace Hmac

def ofKey (key : Bytes) : Hmac :=
  let short := if blockSize < key.length then Sha1.hash key else key
  let block := short ++ List.replicate (blockSize - short.length) 0
  { inner := Sha1.compress Sha1.initial (words (Bytes.mask 0x36 block))
    outer := Sha1.compress Sha1.initial (words (Bytes.mask 0x5C block)) }

def sign (hmac : Hmac) (message : Bytes) : Bytes :=
  Sha1.resume hmac.outer blockSize (Sha1.resume hmac.inner blockSize message)

end Hmac

namespace KeyDerivation

def combine (first second : Bytes) : Bytes := List.zipWith (· ^^^ ·) first second

/-- The combination of so many more signatures, each of the one before. -/
def repeated (hmac : Hmac) : Nat → Bytes → Bytes → Bytes
  | 0, _, combined => combined
  | count + 1, last, combined =>
    let next := hmac.sign last
    repeated hmac count next (combine combined next)

def block (hmac : Hmac) (salt : Bytes) (iterations number : Nat) : Bytes :=
  let first := hmac.sign (salt ++ Word32.encode number)
  repeated hmac (iterations - 1) first first

def keyLength : Nat := 32

/-- A key of thirty-two bytes, which two blocks suffice for. -/
def derive (password salt : Bytes) (iterations : Nat) : Bytes :=
  let hmac := Hmac.ofKey password
  (block hmac salt iterations 1 ++ block hmac salt iterations 2).take keyLength

private theorem length_repeated (hmac : Hmac) (count : Nat) (last combined : Bytes)
    (full : combined.length = 20) : (repeated hmac count last combined).length = 20 := by
  induction count generalizing last combined with
  | zero => exact full
  | succ count ih =>
    apply ih
    simp [combine, full, Hmac.sign, Sha1.length_resume]

private theorem length_block (hmac : Hmac) (salt : Bytes) (iterations number : Nat) :
    (block hmac salt iterations number).length = 20 :=
  length_repeated hmac _ _ _ (Sha1.length_resume _ _ _)

theorem length_derive (password salt : Bytes) (iterations : Nat) :
    (derive password salt iterations).length = keyLength := by
  simp [derive, length_block, keyLength]

end KeyDerivation

end Unbundle.Digest
