import Unbundle.Cipher.Substitution

namespace Unbundle.Cipher

/-- The product with the generator of the field that columns are mixed in. -/
def double (b : UInt8) : UInt8 := b <<< 1 ^^^ (if b &&& 0x80 = 0 then 0 else 0x1B)

private theorem high_bit (s : UInt8) : s &&& 0x80 = 0 ∨ s &&& 0x80 = 0x80 := by
  have all : ∀ i : Fin 256, i.val.toUInt8 &&& 0x80 = 0 ∨ i.val.toUInt8 &&& 0x80 = 0x80 := by
    decide +kernel
  simpa using all ⟨s.toNat, UInt8.toNat_lt s⟩

private theorem xor_left_comm (s t u : UInt8) : s ^^^ (t ^^^ u) = t ^^^ (s ^^^ u) := by
  rw [← UInt8.xor_assoc, UInt8.xor_comm s t, UInt8.xor_assoc]

private theorem xor_cancel (s t : UInt8) : s ^^^ (s ^^^ t) = t := by
  rw [← UInt8.xor_assoc, UInt8.xor_self, UInt8.zero_xor]

private theorem double_xor (s t : UInt8) : double (s ^^^ t) = double s ^^^ double t := by
  have masked : (s ^^^ t) &&& 0x80 = (s &&& 0x80) ^^^ (t &&& 0x80) := by
    apply UInt8.toBitVec_inj.mp
    ext i
    simp [Bool.and_xor_distrib_right]
  simp only [double, UInt8.shiftLeft_xor, masked]
  rcases high_bit s with low | high <;> rcases high_bit t with low' | high' <;>
    simp [*, UInt8.xor_assoc, UInt8.xor_comm, xor_left_comm]

structure Column where
  (a b c d : UInt8)
  deriving DecidableEq, Repr

namespace Column

def add (s t : Column) : Column := ⟨s.a ^^^ t.a, s.b ^^^ t.b, s.c ^^^ t.c, s.d ^^^ t.d⟩

def map (f : UInt8 → UInt8) (s : Column) : Column := ⟨f s.a, f s.b, f s.c, f s.d⟩

def rotate (s : Column) : Column := ⟨s.b, s.c, s.d, s.a⟩

def toBytes (s : Column) : Bytes := [s.a, s.b, s.c, s.d]

def sum (s : Column) : UInt8 := s.a ^^^ s.b ^^^ s.c ^^^ s.d

/-- Each byte becomes the sum of the others and of the doubles of itself and its neighbour. -/
def mix (s : Column) : Column where
  a := s.a ^^^ s.sum ^^^ double (s.a ^^^ s.b)
  b := s.b ^^^ s.sum ^^^ double (s.b ^^^ s.c)
  c := s.c ^^^ s.sum ^^^ double (s.c ^^^ s.d)
  d := s.d ^^^ s.sum ^^^ double (s.d ^^^ s.a)

/-- What mixing twice comes to. -/
def correct (s : Column) : Column :=
  let even := double (double (s.a ^^^ s.c))
  let odd := double (double (s.b ^^^ s.d))
  ⟨s.a ^^^ even, s.b ^^^ odd, s.c ^^^ even, s.d ^^^ odd⟩

def unmix (s : Column) : Column := s.correct.mix

theorem add_add (s t : Column) : (s.add t).add t = s := by
  simp only [add, UInt8.xor_assoc, UInt8.xor_self, UInt8.xor_zero]

private theorem mix_mix (s : Column) : s.mix.mix = s.correct := by
  simp only [mix, correct, sum, double_xor, UInt8.xor_assoc, UInt8.xor_comm, xor_left_comm,
    xor_cancel, UInt8.xor_self, UInt8.xor_zero, UInt8.zero_xor]

private theorem correct_correct (s : Column) : s.correct.correct = s := by
  simp only [correct, double_xor, UInt8.xor_comm, xor_left_comm, UInt8.xor_self, UInt8.xor_zero]

theorem unmix_mix (s : Column) : s.mix.unmix = s := by
  rw [unmix, ← mix_mix s.mix, mix_mix s.mix.mix, mix_mix s, correct_correct]

end Column

structure Block where
  (w x y z : Column)
  deriving DecidableEq, Repr

namespace Block

def add (s t : Block) : Block := ⟨s.w.add t.w, s.x.add t.x, s.y.add t.y, s.z.add t.z⟩

def map (f : Column → Column) (s : Block) : Block := ⟨f s.w, f s.x, f s.y, f s.z⟩

/-- Each row moves by its number of places. -/
def shift (s : Block) : Block :=
  ⟨⟨s.w.a, s.x.b, s.y.c, s.z.d⟩, ⟨s.x.a, s.y.b, s.z.c, s.w.d⟩,
   ⟨s.y.a, s.z.b, s.w.c, s.x.d⟩, ⟨s.z.a, s.w.b, s.x.c, s.y.d⟩⟩

def unshift (s : Block) : Block :=
  ⟨⟨s.w.a, s.z.b, s.y.c, s.x.d⟩, ⟨s.x.a, s.w.b, s.z.c, s.y.d⟩,
   ⟨s.y.a, s.x.b, s.w.c, s.z.d⟩, ⟨s.z.a, s.y.b, s.x.c, s.w.d⟩⟩

def substitute (s : Block) : Block := s.map (Column.map Substitution.forward)

def unsubstitute (s : Block) : Block := s.map (Column.map Substitution.backward)

def mix (s : Block) : Block := s.map Column.mix

def unmix (s : Block) : Block := s.map Column.unmix

def zero : Block := ⟨⟨0, 0, 0, 0⟩, ⟨0, 0, 0, 0⟩, ⟨0, 0, 0, 0⟩, ⟨0, 0, 0, 0⟩⟩

def toBytes (s : Block) : Bytes := s.w.toBytes ++ s.x.toBytes ++ s.y.toBytes ++ s.z.toBytes

theorem length_toBytes (s : Block) : s.toBytes.length = 16 := rfl

theorem add_add (s t : Block) : (s.add t).add t = s := by
  simp [add, Column.add_add]

theorem unshift_shift (s : Block) : s.shift.unshift = s := rfl

theorem unsubstitute_substitute (s : Block) : s.substitute.unsubstitute = s := by
  simp [substitute, unsubstitute, map, Column.map, Substitution.backward_forward]

theorem unmix_mix (s : Block) : s.mix.unmix = s := by
  simp [mix, unmix, map, Column.unmix_mix]

end Block

/-- The columns of a byte string; bytes that fill no column are dropped. -/
def columns : Bytes → List Column
  | a :: b :: c :: d :: rest => ⟨a, b, c, d⟩ :: columns rest
  | _ => []

/-- Columns taken as blocks; columns that fill no block are dropped. -/
def blocks : List Column → List Block
  | w :: x :: y :: z :: rest => ⟨w, x, y, z⟩ :: blocks rest
  | _ => []

def blocksOf (bytes : Bytes) : List Block := blocks (columns bytes)

theorem blocksOf_flatMap (list : List Block) : blocksOf (list.flatMap Block.toBytes) = list := by
  induction list with
  | nil => rfl
  | cons s rest ih =>
    change s :: blocksOf (rest.flatMap Block.toBytes) = s :: rest
    rw [ih]

private theorem flatMap_columns {bytes : Bytes} {count : Nat} (whole : bytes.length = count * 4) :
    (columns bytes).flatMap Column.toBytes = bytes ∧ (columns bytes).length = count := by
  induction count generalizing bytes with
  | zero =>
    have none : bytes = [] := List.length_eq_zero_iff.mp (by omega)
    subst none
    exact ⟨rfl, rfl⟩
  | succ count ih =>
    match bytes, whole with
    | [], whole | [_], whole | [_, _], whole | [_, _, _], whole =>
      simp only [List.length_cons, List.length_nil] at whole; omega
    | a :: b :: c :: d :: rest, whole =>
      have inner := @ih rest (by simp only [List.length_cons] at whole; omega)
      simp [columns, inner, Column.toBytes]

private theorem flatMap_blocks {list : List Column} {count : Nat} (whole : list.length = count * 4)
    :
    (blocks list).flatMap Block.toBytes = list.flatMap Column.toBytes ∧
      (blocks list).length = count := by
  induction count generalizing list with
  | zero =>
    have none : list = [] := List.length_eq_zero_iff.mp (by omega)
    subst none
    exact ⟨rfl, rfl⟩
  | succ count ih =>
    match list, whole with
    | [], whole | [_], whole | [_, _], whole | [_, _, _], whole =>
      simp only [List.length_cons, List.length_nil] at whole; omega
    | w :: x :: y :: z :: rest, whole =>
      have inner := @ih rest (by simp only [List.length_cons] at whole; omega)
      simp [blocks, inner, Block.toBytes]

theorem flatMap_blocksOf {bytes : Bytes} {count : Nat} (whole : bytes.length = count * 16) :
    (blocksOf bytes).flatMap Block.toBytes = bytes ∧ (blocksOf bytes).length = count := by
  have inner := @flatMap_columns bytes (count * 4) (by omega)
  have outer := flatMap_blocks inner.2
  exact ⟨outer.1.trans inner.1, outer.2⟩

end Unbundle.Cipher
