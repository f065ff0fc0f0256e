import Unbundle.Digest.Crc32
import Unbundle.Digest.Sha256
import Std.Data.ExtTreeMap

namespace Unbundle

structure Fingerprint where
  size : UInt64
  crc32 : UInt32
  sha256 : Bytes
  deriving DecidableEq, Repr

namespace Fingerprint

def ofContent (content : Bytes) : Fingerprint where
  size := content.length.toUInt64
  crc32 := Digest.Crc32.checksum content
  sha256 := Digest.Sha256.hash content

/-- Size and digest decide; the checksum is only recorded. -/
def agrees (print other : Fingerprint) : Bool :=
  print.size = other.size && print.sha256 = other.sha256

theorem agrees_self (print : Fingerprint) : print.agrees print = true := by simp [agrees]

end Fingerprint

/-- What was offered for each relative path first. -/
abbrev OutputIndex := Std.ExtTreeMap Bytes Fingerprint

end Unbundle
