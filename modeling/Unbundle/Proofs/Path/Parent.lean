import Unbundle.Proofs.Path.Segment
import Mathlib.Data.List.Basic
import Mathlib.Data.List.TakeWhile

namespace Unbundle.Path

open Ascii

/-- Names that can stand in a path by themselves. -/
def Names (inner : List Bytes) : Prop := ∀ name ∈ inner, name ≠ [] ∧ slash ∉ name

namespace Names

variable {inner : List Bytes} {name : Bytes}

theorem cons (names : Names (name :: inner)) : (name ≠ [] ∧ slash ∉ name) ∧ Names inner :=
  List.forall_mem_cons.mp names

theorem of_append {first second : List Bytes} (names : Names (first ++ second)) :
    Names first ∧ Names second :=
  List.forall_mem_append.mp names

end Names

/-- A directory without the slashes that its text ends with, if it is not all slashes. -/
def trimmed (root : Bytes) : Bytes :=
  let before := dropTrailing (· = slash) root
  if before = [] ∧ root.head? = some slash then [slash] else before

/-- The text that leads from a directory down through names. -/
def textAt (root : Bytes) : List Bytes → Bytes
  | [] => trimmed root
  | name :: inner => below root (join (name :: inner))

theorem textAt_eq_below (root : Bytes) {inner : List Bytes} (nonempty : inner ≠ []) :
    textAt root inner = below root (join inner) := by
  cases inner with
  | nil => exact absurd rfl nonempty
  | cons name inner => rfl

/-- A path below a directory is the text of the way that its segments are. -/
theorem below_eq_textAt (root path : Bytes) : below root path = textAt root (segments path) := by
  rw [textAt_eq_below root (segments_ne_nil path), join_segments]

theorem join_concat {inner : List Bytes} (nonempty : inner ≠ []) (name : Bytes) :
    join (inner ++ [name]) = join inner ++ slash :: name := by
  induction inner with
  | nil => exact absurd rfl nonempty
  | cons first inner ih =>
    cases inner with
    | nil => simp [join, List.intercalate]
    | cons second inner =>
      have rest := ih (List.cons_ne_nil _ _)
      rw [join, List.cons_append, List.cons_append, List.intercalate_cons_cons,
        ← List.cons_append, ← join, rest, join, join, List.intercalate_cons_cons]
      simp only [List.append_assoc]

private theorem head?_join_ne_slash {inner : List Bytes} (names : Names inner) :
    (join inner).head? ≠ some slash := by
  intro absolute
  cases inner with
  | nil => cases absolute
  | cons name inner =>
    obtain ⟨⟨nonempty, plain⟩, _⟩ := names.cons
    obtain ⟨b, rest, rfl⟩ := List.exists_cons_of_ne_nil nonempty
    have first : (join ((b :: rest) :: inner)).head? = some b := by
      cases inner with
      | nil => simp [join, List.intercalate]
      | cons second inner => simp [join, List.intercalate_cons_cons]
    rw [first] at absolute
    exact plain (Option.some.inj absolute ▸ List.mem_cons_self)

theorem dropTrailing_append {p : UInt8 → Bool} (text : Bytes) {ending : Bytes}
    (all : ∀ b ∈ ending, p b = true) : dropTrailing p (text ++ ending) = dropTrailing p text := by
  rw [dropTrailing, dropTrailing, List.reverse_append, List.dropWhile_append_of_pos]
  intro b member
  exact all b (List.mem_reverse.mp member)

private theorem dropTrailing_concat {p : UInt8 → Bool} (text : Bytes) {b : UInt8}
    (stop : p b = false) :
    dropTrailing p (text ++ [b]) = text ++ [b] := by
  rw [dropTrailing, List.reverse_append, List.reverse_singleton, List.singleton_append,
    List.dropWhile_cons_of_neg (by simp [stop]), List.reverse_cons, List.reverse_reverse]

theorem join_ends {inner : List Bytes} (names : Names inner) (nonempty : inner ≠ []) :
    ∃ text b, join inner = text ++ [b] ∧ b ≠ slash := by
  obtain ⟨outer, name, rfl⟩ := List.eq_nil_or_concat' inner |>.resolve_left nonempty
  obtain ⟨proper, plain⟩ := names name (List.mem_append_right _ (List.mem_singleton_self _))
  obtain ⟨text, b, rfl⟩ := List.eq_nil_or_concat' name |>.resolve_left proper
  have different : b ≠ slash := by
    rintro rfl
    exact plain (List.mem_append_right _ (List.mem_singleton_self _))
  by_cases single : outer = []
  · exact ⟨text, b, by simp [single, join, List.intercalate], different⟩
  · refine ⟨join outer ++ slash :: text, b, ?_, different⟩
    rw [join_concat single, List.append_assoc]
    rfl

theorem lastSegment_append_plain (path : Bytes) {ending : Bytes} (plain : slash ∉ ending) :
    lastSegment (path ++ ending) = lastSegment path ++ ending := by
  have single : segments ending = [ending] := List.splitOn_eq_singleton plain
  rw [lastSegment, segments_append, single]
  simp

theorem dropTrailing_of_lastSegment {stem : Bytes} (ends : lastSegment stem = []) :
    dropTrailing (· ≠ slash) stem = stem := by
  rcases List.eq_nil_or_concat' stem with rfl | ⟨text, b, rfl⟩
  · rfl
  by_cases separates : b = slash
  · exact dropTrailing_concat text (by simp [separates])
  · rw [lastSegment_append_plain text (by simpa using Ne.symm separates)] at ends
    exact absurd (List.append_eq_nil_iff.mp ends).2 (List.cons_ne_nil _ _)

/-- A path below a directory is the path behind a text that means the directory. -/
theorem below_eq (root : Bytes) {path : Bytes} (relative : path.head? ≠ some slash) :
    ∃ ending, below root path = root ++ ending ++ path ∧ lastSegment (root ++ ending) = [] ∧
      (∀ b ∈ ending, b = slash) ∧ (root ++ ending).head? = root.head? := by
  rw [below, if_neg relative]
  by_cases ends : lastSegment root = []
  · rw [if_pos ends]
    refine ⟨[], ?_, ?_, nofun, ?_⟩ <;> rw [List.append_nil]
    exact ends
  · rw [if_neg ends]
    refine ⟨[slash], by rw [List.append_assoc, List.singleton_append], lastSegment_concat_slash root,
      fun b member => List.mem_singleton.mp member, ?_⟩
    cases root with
    | nil => exact absurd rfl ends
    | cons b root => rfl

theorem dropTrailing_eq (p : UInt8 → Bool) (text : Bytes) :
    ∃ ending, text = dropTrailing p text ++ ending ∧ ∀ b ∈ ending, p b = true := by
  refine ⟨(text.reverse.takeWhile p).reverse, ?_, ?_⟩
  · rw [dropTrailing, ← List.reverse_append, List.takeWhile_append_dropWhile, List.reverse_reverse]
  · intro b member
    exact List.mem_takeWhile_imp (List.mem_reverse.mp member)

theorem trimmed_eq (root : Bytes) :
    ∃ ending, root = trimmed root ++ ending ∧ ∀ b ∈ ending, b = slash := by
  obtain ⟨ending, whole, slashes⟩ := dropTrailing_eq (· = slash) root
  have slashes : ∀ b ∈ ending, b = slash := fun b member => of_decide_eq_true (slashes b member)
  rw [trimmed]
  by_cases top : dropTrailing (· = slash) root = [] ∧ root.head? = some slash
  · obtain ⟨rest, split⟩ := List.head?_eq_some_iff.mp top.2
    refine ⟨rest, by rw [if_pos top]; exact split, ?_⟩
    intro b member
    apply slashes b
    rw [top.1, List.nil_append] at whole
    rw [← whole, split]
    exact List.mem_cons_of_mem _ member
  · rw [if_neg top]
    exact ⟨ending, whole, slashes⟩

theorem trimmed_ne_nil {root : Bytes} (nonempty : root ≠ []) : trimmed root ≠ [] := by
  intro empty
  obtain ⟨ending, whole, slashes⟩ := trimmed_eq root
  obtain ⟨b, rest, rfl⟩ := List.exists_cons_of_ne_nil nonempty
  rw [empty, List.nil_append] at whole
  have first : b = slash := slashes b (whole ▸ List.mem_cons_self)
  rw [trimmed] at empty
  by_cases top : dropTrailing (· = slash) (b :: rest) = [] ∧ (b :: rest).head? = some slash
  · rw [if_pos top] at empty
    cases empty
  · rw [if_neg top] at empty
    exact top ⟨empty, by rw [first]; rfl⟩

/-- One name more behind a way is the text of the way, slashes where they are missing, and the
name. -/
theorem textAt_concat (root : Bytes) {outer : List Bytes} {name : Bytes}
    (names : Names (outer ++ [name])) :
    ∃ ending, textAt root (outer ++ [name]) = textAt root outer ++ ending ++ name ∧
      lastSegment (textAt root outer ++ ending) = [] ∧ ∀ b ∈ ending, b = slash := by
  have above := names.of_append.1
  cases outer with
  | nil =>
    have single : join ([] ++ [name]) = name := by simp [join, List.intercalate]
    obtain ⟨_, plain⟩ := names name (List.mem_append_right _ (List.mem_singleton_self _))
    have relative : name.head? ≠ some slash := by
      intro absolute
      exact plain (List.mem_of_mem_head? absolute)
    obtain ⟨ending, whole, ends, more, _⟩ := below_eq root relative
    obtain ⟨slashes, cut, all⟩ := trimmed_eq root
    refine ⟨slashes ++ ending, ?_, ?_, ?_⟩
    · rw [textAt_eq_below root (by simp), single, whole, textAt, ← List.append_assoc,
        ← cut]
    · rwa [textAt, ← List.append_assoc, ← cut]
    · intro b member
      rcases List.mem_append.mp member with member | member
      · exact all b member
      · exact more b member
  | cons first outer =>
    have nonempty : first :: outer ≠ [] := List.cons_ne_nil _ _
    refine ⟨[slash], ?_, ?_, fun b member => List.mem_singleton.mp member⟩
    · rw [List.cons_append, textAt, ← List.cons_append, textAt, below, below,
        if_neg (head?_join_ne_slash names), if_neg (head?_join_ne_slash above),
        join_concat nonempty]
      by_cases ends : lastSegment root = []
      · rw [if_pos ends, if_pos ends]
        simp
      · rw [if_neg ends, if_neg ends]
        simp
    · exact lastSegment_concat_slash _

theorem parent_textAt (root : Bytes) {inner : List Bytes} {name : Bytes}
    (names : Names (inner ++ [name])) :
    parent (textAt root (inner ++ [name])) = textAt root inner := by
  obtain ⟨proper, plain⟩ := names name (List.mem_append_right _ (List.mem_singleton_self _))
  have notSlash : ∀ b ∈ name, decide (b ≠ slash) = true := by
    intro b member
    apply decide_eq_true
    rintro rfl
    exact plain member
  cases inner with
  | nil =>
    have relative : name.head? ≠ some slash := by
      intro absolute
      exact plain (List.mem_of_mem_head? absolute)
    have single : join ([] ++ [name]) = name := by simp [join, List.intercalate]
    obtain ⟨ending, whole, ends, slashes, same⟩ := below_eq root relative
    have cut : dropTrailing (· = slash) (root ++ ending) = dropTrailing (· = slash) root := by
      apply dropTrailing_append
      intro b member
      exact decide_eq_true (slashes b member)
    have head : (root ++ ending ++ name).head? = some slash ↔ root.head? = some slash := by
      rw [← same]
      cases root ++ ending with
      | nil => simpa using relative
      | cons b stem => rfl
    rw [textAt_eq_below root (by simp), single, whole, parent,
      dropTrailing_append _ notSlash, dropTrailing_of_lastSegment ends, cut, textAt, trimmed]
    simp only [head]
  | cons first inner =>
    obtain ⟨ending, whole, ends, slashes⟩ := textAt_concat root names
    have above := names.of_append.1
    have kept : ∃ front b, textAt root (first :: inner) = front ++ [b] ∧ b ≠ slash := by
      obtain ⟨text, b, last, different⟩ := join_ends above (List.cons_ne_nil _ _)
      obtain ⟨ending, whole, _, _⟩ := below_eq root (head?_join_ne_slash above)
      rw [textAt, whole, last]
      exact ⟨root ++ ending ++ text, b, by simp only [List.append_assoc], different⟩
    obtain ⟨front, b, kept, different⟩ := kept
    have cut : dropTrailing (· = slash) (textAt root (first :: inner) ++ ending) =
        textAt root (first :: inner) := by
      rw [dropTrailing_append, kept, dropTrailing_concat _ (by simp [different])]
      intro b member
      exact decide_eq_true (slashes b member)
    rw [whole, parent, dropTrailing_append _ notSlash, dropTrailing_of_lastSegment ends, cut,
      if_neg]
    rw [kept]
    simp

end Unbundle.Path
