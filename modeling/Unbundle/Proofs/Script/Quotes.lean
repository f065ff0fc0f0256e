import Unbundle.Proofs.Script.Grammar

/-!
Where literals end. Inside a literal every backslash takes the byte behind it along, and all other
bytes stand by themselves. Main statement: a literal is read to where skipping it ends if no line
break stands in it by itself, and in no other case.
-/

namespace Unbundle.Script.Literal

open Ascii

/-- What stands inside a literal, part by part: a byte by itself, or a backslash and the byte that
it takes along. -/
inductive Atom
  | bare (b : UInt8)
  | pair (b : UInt8)
  deriving DecidableEq, Repr

/-- A backslash behind which nothing follows stands by itself. -/
def atoms : Bytes → List Atom
  | [] => []
  | b :: rest =>
    if b = backslash then
      match rest with
      | [] => [.bare b]
      | c :: after => .pair c :: atoms after
    else .bare b :: atoms rest

/-- None of the given bytes stands by itself: each is the second one of a pair. -/
def Paired (special : List UInt8) (inside : Bytes) : Prop :=
  ∀ b ∈ special, .bare b ∉ atoms inside

instance (special : List UInt8) (inside : Bytes) : Decidable (Paired special inside) :=
  inferInstanceAs (Decidable (∀ b ∈ special, .bare b ∉ atoms inside))

/-- Where the literal ends whose opening quote stands at a place, if it is skipped. -/
def skipEnd? (text : Bytes) (place : Nat) : Option Nat :=
  match text.drop place with
  | [] => none
  | quote :: inside => (skipQuoted quote inside).map (placeOf text)

/-- Where the literal ends whose opening quote stands at a place, if it is read. -/
def readEnd? (text : Bytes) (place : Nat) : Option Nat :=
  (quoted? (text.drop place)).map fun (_, rest) => placeOf text rest

/-- The quote stands in front of a place behind the opening one, and none of the given bytes stands
by itself between the two. -/
def ClosesAt (special : List UInt8) (quote : UInt8) (text : Bytes) (place finish : Nat) : Prop :=
  place + 1 < finish ∧ text[finish - 1]? = some quote ∧
    Paired special (text.extract (place + 1) (finish - 1))

variable {special : List UInt8} {quote b : UInt8} {text inside rest : Bytes} {place finish : Nat}

/-! ### What stands between the quotes -/

private theorem atoms_cons (plain : b ≠ backslash) (inside : Bytes) :
    atoms (b :: inside) = .bare b :: atoms inside := by
  cases inside <;> simp [atoms, plain]

private theorem paired_nil : Paired special [] := fun _ _ => List.not_mem_nil

private theorem paired_cons (plain : b ≠ backslash) :
    Paired special (b :: inside) ↔ b ∉ special ∧ Paired special inside := by
  simp only [Paired, atoms_cons plain, List.mem_cons, Atom.bare.injEq, not_or]
  constructor
  · intro paired
    exact ⟨fun member => (paired b member).1 rfl, fun c member => (paired c member).2⟩
  · rintro ⟨fresh, paired⟩ c member
    exact ⟨fun same => fresh (same ▸ member), paired c member⟩

private theorem paired_pair :
    Paired special (backslash :: b :: inside) ↔ Paired special inside := by
  simp [Paired, atoms]

private theorem not_paired_backslash (stops : backslash ∈ special) : ¬ Paired special [backslash] :=
  fun paired => paired backslash stops (List.mem_singleton.mpr rfl)

theorem paired_break : Paired [quote, newline, backslash] inside ↔
    Paired [quote, backslash] inside ∧ Paired [newline] inside := by
  simp only [Paired, List.forall_mem_cons, List.not_mem_nil, false_imp_iff, implies_true, and_true]
  tauto

theorem quotable_iff : Quotable quote inside ↔ Paired [quote, newline, backslash] inside := by
  constructor
  · intro quotable
    induction quotable with
    | nil => exact paired_nil
    | plain fresh more ih =>
      refine (paired_cons ?_).mpr ⟨fresh, ih⟩
      rintro rfl
      simp at fresh
    | escaped more ih => exact paired_pair.mpr ih
  · intro paired
    -- By atoms and not by bytes: the second byte of a pair may be anything, a backslash too.
    induction inside using atoms.induct with
    | case1 => exact .nil
    | case2 => exact absurd paired (not_paired_backslash (by simp))
    | case3 c inside ih => exact .escaped (ih (paired_pair.mp paired))
    | case4 b inside plain ih =>
      obtain ⟨fresh, paired⟩ := (paired_cons plain).mp paired
      exact .plain fresh (ih paired)

theorem skipQuoted_eq_some (plain : quote ≠ backslash) : skipQuoted quote text = some rest ↔
    ∃ inside, Paired [quote, backslash] inside ∧ text = inside ++ quote :: rest := by
  constructor
  · intro skipped
    fun_induction skipQuoted quote text with
    | case1 | case2 => cases skipped
    | case3 c text ih =>
      obtain ⟨inside, paired, rfl⟩ := ih skipped
      exact ⟨backslash :: c :: inside, paired_pair.mpr paired, rfl⟩
    | case4 =>
      cases skipped
      exact ⟨[], paired_nil, rfl⟩
    | case5 b text noBackslash noQuote ih =>
      obtain ⟨inside, paired, rfl⟩ := ih skipped
      have fresh : b ∉ [quote, backslash] := by simp [noBackslash, noQuote]
      exact ⟨b :: inside, (paired_cons noBackslash).mpr ⟨fresh, paired⟩, rfl⟩
  · rintro ⟨inside, paired, rfl⟩
    induction inside using atoms.induct with
    | case1 => rw [List.nil_append, skipQuoted_cons plain, if_pos rfl]
    | case2 => exact absurd paired (not_paired_backslash (by simp))
    | case3 c inside ih => exact ih (paired_pair.mp paired)
    | case4 b inside noBackslash ih =>
      obtain ⟨fresh, paired⟩ := (paired_cons noBackslash).mp paired
      have noQuote : b ≠ quote := fun same => fresh (same ▸ List.mem_cons_self ..)
      rw [List.cons_append, skipQuoted_cons noBackslash, if_neg noQuote]
      exact ih paired

private theorem quoted?_eq_some (quotes : isQuote quote = true) :
    (∃ spelled, quoted? (quote :: text) = some (spelled, rest)) ↔
      ∃ inside, Paired [quote, newline, backslash] inside ∧ text = inside ++ quote :: rest := by
  simp only [quoted?, quotes, if_true, ← quotable_iff]
  constructor
  · rintro ⟨spelled, read⟩
    exact quotable_of_read? quotes read
  · rintro ⟨inside, quotable, rfl⟩
    obtain ⟨spelled, read⟩ := read?_quotable quotes quotable
    exact ⟨spelled, read rest⟩

/-- A literal that can be read ends where skipping it ends. -/
theorem skipQuoted_of_read? {spelled : Bytes} (quotes : isQuote quote = true)
    (found : read? quote text = some (spelled, rest)) : skipQuoted quote text = some rest := by
  obtain ⟨inside, quotable, same⟩ := quotable_of_read? quotes found
  obtain ⟨paired, _⟩ := paired_break.mp (quotable_iff.mp quotable)
  exact (skipQuoted_eq_some (ne_backslash quotes)).mpr ⟨inside, paired, same⟩

/-! ### Places -/

/-- A closing quote cuts what follows the opening one in two, into what stands between them and the
rest of the text. -/
theorem closesAt_iff {before : Bytes} :
    ClosesAt special quote (before ++ quote :: text) before.length finish ↔
      ∃ rest, (∃ inside, Paired special inside ∧ text = inside ++ quote :: rest) ∧
        placeOf (before ++ quote :: text) rest = finish := by
  have between (inside rest : Bytes) :
      (before ++ quote :: (inside ++ quote :: rest)).extract (before.length + 1)
        (before.length + 1 + inside.length) = inside := by
    have opening : (before ++ [quote]).length = before.length + 1 := List.length_append
    rw [List.extract_eq_take_drop, Nat.add_sub_cancel_left, List.append_cons,
      List.drop_left' opening, List.take_left]
  have behind (inside rest : Bytes) :
      placeOf (before ++ quote :: (inside ++ quote :: rest)) rest =
        before.length + 1 + inside.length + 1 := by
    simp only [placeOf, List.length_append, List.length_cons]
    omega
  constructor
  · rintro ⟨beyond, closes, paired⟩
    obtain ⟨more, rfl⟩ := Nat.exists_eq_add_of_lt beyond
    rw [Nat.add_sub_cancel] at closes paired
    rw [Nat.add_assoc, List.getElem?_append_right (Nat.le_add_right _ _),
      Nat.add_sub_cancel_left, Nat.add_comm 1, List.getElem?_cons_succ] at closes
    obtain ⟨inside, rest, rfl, rfl⟩ := exists_cut_of_getElem? closes
    rw [between] at paired
    exact ⟨rest, ⟨inside, paired, rfl⟩, behind inside rest⟩
  · rintro ⟨rest, ⟨inside, paired, rfl⟩, rfl⟩
    rw [behind]
    refine ⟨by omega, ?_, ?_⟩
    · rw [Nat.add_sub_cancel]
      simp [Nat.add_assoc, Nat.add_comm 1]
    · rwa [Nat.add_sub_cancel, between]

private theorem skipEnd?_eq_some (opens : text[place]? = some quote) (quotes : isQuote quote = true)
    :
    skipEnd? text place = some finish ↔
      ClosesAt [quote, backslash] quote text place finish := by
  obtain ⟨before, inside, rfl, rfl⟩ := exists_cut_of_getElem? opens
  rw [skipEnd?, List.drop_left]
  simp only [Option.map_eq_some_iff, skipQuoted_eq_some (ne_backslash quotes), closesAt_iff]

private theorem readEnd?_eq_some (opens : text[place]? = some quote) (quotes : isQuote quote = true)
    :
    readEnd? text place = some finish ↔
      ClosesAt [quote, newline, backslash] quote text place finish := by
  obtain ⟨before, inside, rfl, rfl⟩ := exists_cut_of_getElem? opens
  rw [readEnd?, List.drop_left]
  simp only [Option.map_eq_some_iff, closesAt_iff, ← quoted?_eq_some quotes, Prod.exists]
  tauto

/-- A literal is read to where skipping it ends if each line break in it stands behind the backslash
of a pair, and in no other case is it read at all. -/
theorem ends_agree (opens : text[place]? = some quote) (quotes : isQuote quote = true) :
    (∀ finish, readEnd? text place = some finish ↔
      skipEnd? text place = some finish ∧
        Paired [newline] (text.extract (place + 1) (finish - 1))) ∧
    ((∀ finish, skipEnd? text place = some finish →
        ¬ Paired [newline] (text.extract (place + 1) (finish - 1))) →
      quoted? (text.drop place) = none) := by
  have agree (finish : Nat) : readEnd? text place = some finish ↔
      skipEnd? text place = some finish ∧
        Paired [newline] (text.extract (place + 1) (finish - 1)) := by
    rw [readEnd?_eq_some opens quotes, skipEnd?_eq_some opens quotes, ClosesAt, ClosesAt,
      paired_break, and_assoc, and_assoc]
  refine ⟨agree, fun broken => ?_⟩
  rw [← Option.map_eq_none_iff, ← readEnd?, Option.eq_none_iff_forall_ne_some]
  intro finish read
  obtain ⟨skipped, paired⟩ := (agree finish).mp read
  exact broken finish skipped paired

/-- Escapes whose digits end early, an escaped quote and an escaped line break; and a line break
behind a backslash that is escaped itself. -/
theorem ends_agree_sample :
    let text := utf8 "a='\\u0\\'\\\\\\\n\\x4';"
    let broken := utf8 "a='\\\\\n';"
    isQuote singleQuote = true ∧
    (text[2]? = some singleQuote ∧ skipEnd? text 2 = some 16 ∧
      Paired [newline] (text.extract 3 15) ∧ readEnd? text 2 = some 16) ∧
    broken[2]? = some singleQuote ∧ skipEnd? broken 2 = some 7 ∧
      ¬ Paired [newline] (broken.extract 3 6) ∧ quoted? (broken.drop 2) = none := by
  intro text broken
  have quotes : isQuote singleQuote = true := rfl
  have opens : text[2]? = some singleQuote := by decide +kernel
  have skipped : skipEnd? text 2 = some 16 := by decide +kernel
  have paired : Paired [newline] (text.extract 3 15) := by decide +kernel
  have opensBroken : broken[2]? = some singleQuote := by decide +kernel
  have skippedBroken : skipEnd? broken 2 = some 7 := by decide +kernel
  have bare : ¬ Paired [newline] (broken.extract 3 6) := by decide +kernel
  refine ⟨quotes, ⟨opens, skipped, paired, ((ends_agree opens quotes).1 16).mpr ⟨skipped, paired⟩⟩,
    opensBroken, skippedBroken, bare, (ends_agree opensBroken quotes).2 fun finish ends => ?_⟩
  obtain rfl := Option.some.inj (skippedBroken.symm.trans ends)
  exact bare

end Unbundle.Script.Literal
