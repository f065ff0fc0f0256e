import Unbundle.Proofs.Script.Pieces
import Unbundle.Proofs.Script.Step

namespace Unbundle.Script

open Ascii

variable {text rest word other : Bytes} {b : UInt8}

theorem blank?_eq_none : blank? text = none ↔ ∀ spelling ∈ blanks, ¬spelling <+: text := by
  constructor
  · rintro unblank spelling member ⟨rest, rfl⟩
    cases (blank?_append member rest).symm.trans unblank
  · intro unblank
    cases found : blank? text with
    | none => rfl
    | some rest =>
      obtain ⟨spelling, member, rfl⟩ := blank?_eq_some found
      exact absurd (List.prefix_append spelling rest) (unblank spelling member)

theorem blank?_slash (text : Bytes) : blank? (slash :: text) = none := by
  rw [blank?_eq_none]
  rintro spelling member begun
  have apart : ∀ spelling ∈ blanks, spelling.head? ≠ some slash ∧ spelling ≠ [] := by decide
  obtain ⟨different, nonempty⟩ := apart spelling member
  cases spelling with
  | nil => exact nonempty rfl
  | cons b spelling => exact different (congrArg some (List.cons_prefix_cons.mp begun).1)

theorem blank?_append_tail (found : blank? text = some rest) (tail : Bytes) :
    blank? (text ++ tail) = some (rest ++ tail) := by
  obtain ⟨spelling, member, rfl⟩ := blank?_eq_some found
  rw [List.append_assoc, blank?_append member]

private theorem isBlank_of_append (solid : isBlank (text ++ rest) = false) :
    isBlank text = false := by
  cases found : blank? text with
  | none => rw [isBlank, found]; rfl
  | some after =>
    rw [isBlank, blank?_append_tail found] at solid
    cases solid

namespace Word

theorem isPart_of_isStart (start : isStart b = true) : isPart b = true := by
  rw [isPart, start, Bool.true_or]

theorem split_outside (outside : isPart b = false) (text : Bytes) :
    split (b :: text) = ([], b :: text) := by
  rw [split, outside]
  rfl

theorem split_part (part : isPart b = true) (solid : isBlank (b :: text) = false) :
    split (b :: text) = (b :: (split text).1, (split text).2) := by
  rw [split, part, solid]
  rfl

theorem eq_cons_of_split {word : Bytes} (found : split text = (b :: word, rest)) :
    ∃ tail, text = b :: tail ∧ isBlank (b :: tail) = false ∧ isPart b = true := by
  cases text with
  | nil => cases found
  | cons c tail =>
    rw [split] at found
    split at found
    · next part =>
      cases found
      simp only [Bool.and_eq_true, Bool.not_eq_true'] at part
      exact ⟨tail, rfl, part.2, part.1⟩
    · cases found

/-- No byte of a word means anything to a regular expression. -/
theorem skipRegex_append {inClass : Bool} (parts : ∀ b ∈ word, isPart b = true) (text : Bytes) :
    skipRegex inClass (word ++ text) = skipRegex inClass text := by
  induction word generalizing inClass with
  | nil => rfl
  | cons b word ih =>
    have part := parts b (List.mem_cons_self ..)
    have rest {inClass : Bool} := @ih inClass fun c member => parts c (List.mem_cons_of_mem _ member)
    have apart : ∀ c ∈ [backslash, newline, carriageReturn, slash, leftBracket, rightBracket],
        isPart c = false := by decide +kernel
    have plain : b ∉ [backslash, newline, carriageReturn, slash, leftBracket, rightBracket] :=
      fun special => by
        rw [apart b special] at part
        cases part
    simp only [List.mem_cons, List.not_mem_nil, or_false, not_or] at plain
    rw [List.cons_append, skipRegex_cons plain.1]
    cases inClass <;> simp [plain, rest]

/-- A word that stands alone. -/
def IsWord (text : Bytes) : Prop := text ≠ [] ∧ split text = (text, [])

instance (text : Bytes) : Decidable (IsWord text) := inferInstanceAs (Decidable (_ ∧ _))

theorem parts_of_split (found : split text = (word, rest)) : ∀ b ∈ word, isPart b = true := by
  induction text generalizing word with
  | nil =>
    cases found
    exact nofun
  | cons b text ih =>
    rw [split] at found
    split at found
    · next part =>
      cases found
      simp only [Bool.and_eq_true] at part
      exact List.forall_mem_cons.mpr ⟨part.1, ih rfl⟩
    · cases found
      exact nofun

theorem split_word (found : split text = (word, rest)) : split word = (word, []) := by
  induction text generalizing word with
  | nil =>
    cases found
    rfl
  | cons b text ih =>
    rw [split] at found
    split at found
    · next part =>
      simp only [Bool.and_eq_true, Bool.not_eq_true'] at part
      obtain ⟨part, solid⟩ := part
      cases found
      rw [← split_append text, ← List.cons_append] at solid
      rw [split_part part (isBlank_of_append solid), ih rfl]
    · cases found
      rfl

/-- No word begins where one ends. -/
theorem split_rest (found : split (word ++ rest) = (word, rest)) : split rest = ([], rest) := by
  induction word with
  | nil => exact found
  | cons b word ih =>
    rw [List.cons_append, split] at found
    split at found
    · obtain ⟨same, left⟩ := Prod.mk.inj found
      exact ih (Prod.ext (List.cons.inj same).2 left)
    · cases found

theorem isBlank_append {b : UInt8} (solid : isBlank (b :: text) = false)
    (ends : split rest = ([], rest)) : isBlank (b :: (text ++ rest)) = false := by
  have inner : ∀ spelling ∈ blanks, ∀ c ∈ spelling.tail, isPart c = true ∧ startsGap c = false := by
    decide +kernel
  by_contra blank
  rw [Bool.not_eq_false, isBlank, Option.isSome_iff_exists] at blank
  obtain ⟨after, found⟩ := blank
  obtain ⟨spelling, member, same⟩ := blank?_eq_some found
  rw [← List.cons_append, List.append_eq_append_iff] at same
  rcases same with ⟨more, rfl, rfl⟩ | ⟨more, whole, rfl⟩
  · cases more with
    | nil =>
      rw [List.append_nil] at member
      have blank := blank?_append member []
      rw [List.append_nil] at blank
      rw [isBlank, blank] at solid
      cases solid
    | cons c more =>
      obtain ⟨part, start⟩ := inner _ member c (by simp)
      have word : isBlank (c :: (more ++ after)) = false := by rw [isBlank, blank?_cons start]; rfl
      cases (split_part part word).symm.trans ends
  · rw [whole, isBlank, blank?_append member] at solid
    cases solid

/-- A word ends where another one does. -/
theorem split_append_of_split (ends : split rest = ([], rest)) (another : split other = (other, [])) :
    split (other ++ rest) = (other, rest) := by
  induction other with
  | nil => exact ends
  | cons b other ih =>
    rw [split] at another
    split at another
    · next part =>
      obtain ⟨same, left⟩ := Prod.mk.inj another
      simp only [Bool.and_eq_true, Bool.not_eq_true'] at part
      rw [List.cons_append, split_part part.1 (isBlank_append part.2 ends),
        ih (Prod.ext (List.cons.inj same).2 left)]
    · cases another

/-- A word that does not reach to the end of a text ends alike where the text goes on. -/
theorem split_append_tail (found : split text = (word, rest)) (left : rest ≠ [])
    (tail : Bytes) : split (text ++ tail) = (word, rest ++ tail) := by
  have whole := split_append text
  rw [found] at whole
  subst whole
  have ends : split (rest ++ tail) = ([], rest ++ tail) := by
    obtain ⟨b, rest, rfl⟩ := List.exists_cons_of_ne_nil left
    have none := split_rest found
    rw [List.cons_append]
    by_cases part : isPart b = true
    · have blank : isBlank (b :: rest) = true := by
        by_contra solid
        rw [split_part part (Bool.not_eq_true _ ▸ solid)] at none
        cases none
      obtain ⟨after, blank⟩ := Option.isSome_iff_exists.mp blank
      have blank := blank?_append_tail blank tail
      rw [List.cons_append] at blank
      simp [split, isBlank, blank]
    · exact split_outside (Bool.not_eq_true _ ▸ part) _
  rw [List.append_assoc]
  exact split_append_of_split ends (split_word found)

end Word

/-- A word is read wherever one stands, whatever is remembered. -/
theorem Piece.read?_eq_word {divides : Bool} {word : Bytes} :
    read? divides text = some (.word word rest) ↔ Word.split text = (word, rest) ∧ word ≠ [] := by
  constructor
  · intro read
    have taken := append_of_read?_word read
    have shorter := length_rest read
    refine ⟨split_of_read?_word read, ?_⟩
    rintro rfl
    rw [← taken] at shorter
    exact absurd shorter (Nat.lt_irrefl _)
  · rintro ⟨found, nonempty⟩
    obtain ⟨b, name, rfl⟩ := List.exists_cons_of_ne_nil nonempty
    obtain ⟨tail, rfl, solid, part⟩ := Word.eq_cons_of_split found
    have apart : ∀ c ∈ [doubleQuote, singleQuote, backtick, slash], Word.isPart c = false := by
      decide +kernel
    have plain : b ∉ [doubleQuote, singleQuote, backtick, slash] := fun special => by
      rw [apart b special] at part
      cases part
    simp only [List.mem_cons, List.not_mem_nil, or_false, not_or] at plain
    have unblank : blank? (b :: tail) = none := Option.not_isSome_iff_eq_none.mp (by
      rw [isBlank] at solid
      rw [solid]
      decide)
    simp [read?, unblank, isQuote, plain, part, found]

namespace Word.IsWord

/-- A word ends before every byte that is no part of one. -/
theorem split_cons (alone : IsWord word) (outside : isPart b = false) (rest : Bytes) :
    split (word ++ b :: rest) = (word, b :: rest) :=
  split_append_of_split (split_outside outside rest) alone.2

theorem read?_cons (alone : IsWord word) (outside : isPart b = false) (divides : Bool)
    (rest : Bytes) : Piece.read? divides (word ++ b :: rest) = some (.word word (b :: rest)) :=
  Piece.read?_eq_word.mpr ⟨alone.split_cons outside rest, alone.1⟩

end Word.IsWord

end Unbundle.Script
