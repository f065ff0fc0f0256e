/-!
Byte strings, and the numbers that messages and digests are written with.
-/

namespace Unbundle

abbrev Bytes := List UInt8

instance : LawfulBEq Bytes := inferInstance

/-- The bytes of a text of the program's own. -/
def utf8 (text : String) : Bytes := text.toUTF8.data.toList

namespace Bytes

/-- A number in decimal digits, without leading zeros. -/
def decimal (n : Nat) : Bytes := (Nat.toDigits 10 n).map Char.toUInt8

def hexDigit (value : UInt8) : UInt8 :=
  if value < 10 then 0x30 + value else 0x57 + value

/-- Two lowercase hexadecimal digits for each byte. -/
def hex (bytes : Bytes) : Bytes :=
  bytes.flatMap fun (b : UInt8) => [hexDigit (b >>> 4), hexDigit (b &&& 0x0F)]

/-- The part before the first NUL: all that a NUL-terminated reader sees. -/
def untilNul (bytes : Bytes) : Bytes := bytes.takeWhile (· ≠ 0)

/-- Each byte masked with the same key. -/
def mask (key : UInt8) (bytes : Bytes) : Bytes := bytes.map (· ^^^ key)

theorem length_mask (key : UInt8) (bytes : Bytes) : (mask key bytes).length = bytes.length := by
  simp [mask]

theorem mask_mask (key : UInt8) (bytes : Bytes) : mask key (mask key bytes) = bytes := by
  simp only [mask, List.map_map, Function.comp_def, UInt8.xor_assoc, UInt8.xor_self, UInt8.xor_zero,
    List.map_id']

end Bytes

end Unbundle
