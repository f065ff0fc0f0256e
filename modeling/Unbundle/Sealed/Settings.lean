import Unbundle.Bytes

/-!
How sealed packages are written: the tag they start with, the salt after it, and the split of the
rest into an enciphered head and a masked tail.
-/

namespace Unbundle.Sealed

/-- `headLength` counts the bytes of the enciphered head, and `defaultMask` masks the tail where
the app id is too short to give a mask. -/
structure Settings where
  versionTag : Bytes := utf8 "V1MMWX"
  saltLength : UInt64 := 8
  iv : Bytes := utf8 "the iv: 16 bytes"
  iterations : Int := 1000
  headLength : UInt64 := 1024
  defaultMask : UInt8 := 0x66
  deriving DecidableEq, Repr

/-- The length of tag and salt together, as a machine word holds it: a sum beyond the width
starts again from zero. -/
def Settings.prefixLength (settings : Settings) : Nat :=
  (settings.versionTag.length.toUInt64 + settings.saltLength).toNat

end Unbundle.Sealed
