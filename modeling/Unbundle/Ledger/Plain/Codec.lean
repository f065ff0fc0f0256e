import Unbundle.Bytes

/-!
Codecs: values as bytes that can be read back with more bytes behind them. Every codec carries the
proof that it can.
-/

namespace Unbundle

structure Codec (α : Type) where
  write : α → Bytes
  read : Bytes → Option (α × Bytes)
  read_write : ∀ value rest, read (write value ++ rest) = some (value, rest)

namespace Codec

variable {α β : Type}

/-- A number in groups of seven bits, the lowest first; all but the last are marked. -/
def writeNat (n : Nat) : Bytes :=
  if n < 128 then [n.toUInt8] else (n % 128 + 128).toUInt8 :: writeNat (n / 128)

def readNat : Bytes → Option (Nat × Bytes)
  | [] => none
  | b :: rest =>
    if b.toNat < 128 then some (b.toNat, rest)
    else (readNat rest).map fun (high, rest) => (high * 128 + (b.toNat - 128), rest)

private theorem readNat_writeNat (n : Nat) (rest : Bytes) :
    readNat (writeNat n ++ rest) = some (n, rest) := by
  fun_induction writeNat n with
  | case1 n small =>
    have value : n.toUInt8.toNat = n := by
      simp only [Nat.toUInt8, UInt8.toNat_ofNat']; omega
    simp [readNat, value, small]
  | case2 n large ih =>
    have value : (n % 128 + 128).toUInt8.toNat = n % 128 + 128 := by
      simp only [Nat.toUInt8, UInt8.toNat_ofNat']; omega
    have marked : ¬ n % 128 + 128 < 128 := by omega
    have whole : n / 128 * 128 + (n % 128 + 128 - 128) = n := by omega
    rw [List.cons_append, readNat, value, if_neg marked, ih, Option.map_some]
    dsimp only
    rw [whole]

def nat : Codec Nat where
  write := writeNat
  read := readNat
  read_write := readNat_writeNat

/-- The values of another type that stand for those of this one. -/
def via (codec : Codec α) (toValue : α → β) (ofValue : β → α)
    (inverse : ∀ value, toValue (ofValue value) = value) : Codec β where
  write value := codec.write (ofValue value)
  read bytes := (codec.read bytes).map fun (value, rest) => (toValue value, rest)
  read_write value rest := by simp [codec.read_write, inverse]

def pair (first : Codec α) (second : Codec β) : Codec (α × β) where
  write value := first.write value.1 ++ second.write value.2
  read bytes := do
    let (a, rest) ← first.read bytes
    let (b, rest) ← second.read rest
    some ((a, b), rest)
  read_write value rest := by
    simp [List.append_assoc, first.read_write, second.read_write]

def readItems (codec : Codec α) : Nat → Bytes → Option (List α × Bytes)
  | 0, bytes => some ([], bytes)
  | count + 1, bytes => do
    let (value, rest) ← codec.read bytes
    let (values, rest) ← readItems codec count rest
    some (value :: values, rest)

private theorem readItems_flatMap (codec : Codec α) (values : List α) (rest : Bytes) :
    readItems codec values.length (values.flatMap codec.write ++ rest) = some (values, rest) := by
  induction values with
  | nil => rfl
  | cons value values ih =>
    simp [readItems, List.append_assoc, codec.read_write, ih]

def list (codec : Codec α) : Codec (List α) where
  write values := writeNat values.length ++ values.flatMap codec.write
  read bytes := (readNat bytes).bind fun (count, rest) => readItems codec count rest
  read_write values rest := by
    simp [List.append_assoc, readNat_writeNat, readItems_flatMap]

def byte : Codec UInt8 where
  write b := [b]
  read
    | [] => none
    | b :: rest => some (b, rest)
  read_write _ _ := rfl

def bytes : Codec Bytes := byte.list

def bool : Codec Bool := nat.via (· = 1) Bool.toNat (by decide)

/-- Signed numbers, each as the machine word that holds it. -/
def int64 : Codec Int64 :=
  nat.via (fun n => n.toUInt64.toInt64) (fun value => value.toUInt64.toNat) (by simp)

end Codec

end Unbundle
