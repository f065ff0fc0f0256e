import Unbundle.Bytes

namespace Unbundle.Word32

/-- How many words there are. -/
abbrev size : Nat := 0x100000000

def ofBytes (a b c d : UInt8) : Nat :=
  ((a.toNat * 256 + b.toNat) * 256 + c.toNat) * 256 + d.toNat

/-- Numbers above the width lose their high bits. -/
def encode (n : Nat) : Bytes :=
  [(n / 0x1000000).toUInt8, (n / 0x10000).toUInt8, (n / 0x100).toUInt8, n.toUInt8]

/-- The word at the front, if four bytes are left. -/
def read? : Bytes → Option Nat
  | a :: b :: c :: d :: _ => some (ofBytes a b c d)
  | _ => none

theorem length_encode (n : Nat) : (encode n).length = 4 := rfl

theorem read?_encode_append (n : Nat) (rest : Bytes) :
    read? (encode n ++ rest) = some (n % size) := by
  simp only [encode, read?, List.cons_append, ofBytes, size, Nat.toUInt8, UInt8.toNat_ofNat']
  congr 1
  omega

theorem read?_eq_none {text : Bytes} (short : text.length < 4) : read? text = none := by
  match text, short with
  | [], _ | [_], _ | [_, _], _ | [_, _, _], _ => rfl

end Unbundle.Word32
