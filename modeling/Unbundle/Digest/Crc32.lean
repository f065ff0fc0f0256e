import Unbundle.Bytes

namespace Unbundle.Digest.Crc32

def polynomial : UInt32 := 0xEDB88320

def shift (value : UInt32) : UInt32 :=
  if value &&& 1 = 1 then polynomial ^^^ value >>> 1 else value >>> 1

/-- What eight shifts make of each byte. -/
def table : Vector UInt32 256 := Vector.ofFn fun i => Nat.repeat shift 8 i.val.toUInt32

def step (value : UInt32) (b : UInt8) : UInt32 :=
  let index := value.toUInt8 ^^^ b
  have : index.toNat < 256 := UInt8.toNat_lt index
  table[index.toNat] ^^^ value >>> 8

def checksum (bytes : Bytes) : UInt32 := ~~~bytes.foldl step 0xFFFFFFFF

end Unbundle.Digest.Crc32
