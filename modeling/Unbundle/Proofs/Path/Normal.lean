import Unbundle.Proofs.Path.Canonical

/-!
The canonical form of a name. Main statement: a name that does not go up is left with the parts
between its separators that lead somewhere, and two names have one form just if these parts agree.
-/

namespace Unbundle.Path

open Ascii

/-- The parts of a name between its separators, which are slashes and backslashes alike. -/
structure Splits (name : Bytes) (parts : List Bytes) : Prop where
  nonempty : parts ≠ []
  plain : ∀ part ∈ parts, slash ∉ part
  joined : join parts = withSlashes name

/-- The parts that lead somewhere, in order. -/
def kept (parts : List Bytes) : List Bytes := parts.filter fun part => part ≠ [] ∧ part ≠ here

/-- The parts kept so far, after one more. A part that goes up is refused. -/
def keep? (done : List Bytes) (part : Bytes) : Option (List Bytes) :=
  if part = [] ∨ part = here then some done
  else if part = up then none
  else some (done ++ [part])

/-- Reads a name from the front: the parts kept so far, the bytes of the part that has been begun, and
the rest of the name. Nothing is read behind a part that goes up. -/
def readParts? (done : List Bytes) (begun : Bytes) : Bytes → Option (List Bytes)
  | [] => keep? done begun
  | b :: rest =>
    if b = slash ∨ b = backslash then
      match keep? done begun with
      | none => none
      | some done => readParts? done [] rest
    else readParts? done (begun ++ [b]) rest

variable {name other path : Bytes} {parts done : List Bytes}

theorem splits_iff : Splits name parts ↔ parts = segments (withSlashes name) := by
  constructor
  · intro splits
    rw [← splits.joined, segments_join splits.plain splits.nonempty]
  · rintro rfl
    exact ⟨segments_ne_nil _, fun _ => slash_notMem, join_segments _⟩

private theorem up_mem_kept : up ∈ kept parts ↔ up ∈ parts := by
  rw [kept, List.mem_filter, decide_eq_true_eq]
  exact and_iff_left ⟨by decide, by decide⟩

private theorem kept_eq_nil : kept parts = [] ↔ ∀ part ∈ parts, part = [] ∨ part = here := by
  rw [kept, List.filter_eq_nil_iff]
  simp only [decide_eq_true_eq, Decidable.not_and_iff_not_or_not, Decidable.not_not, ne_eq]

private theorem canonical?_eq (name : Bytes) :
    canonical? name =
      if kept (segments (withSlashes name)) = [] ∨ up ∈ segments (withSlashes name) then none
      else some (join (kept (segments (withSlashes name)))) := by
  have same : (segments (withSlashes name)).filter (fun part => !isIdle part) =
      kept (segments (withSlashes name)) := by
    refine List.filter_congr fun part _ => ?_
    simp [isIdle]
  simp only [canonical?, same, up_mem_kept]

theorem foldlM_keep? (done parts : List Bytes) :
    parts.foldlM keep? done = if up ∈ parts then none else some (done ++ kept parts) := by
  induction parts generalizing done with
  | nil => simp [kept]
  | cons part parts ih =>
    rw [List.foldlM_cons, keep?]
    by_cases idle : part = [] ∨ part = here
    · have onward : up ≠ part := by
        rintro rfl
        exact absurd idle (by decide)
      have dropped : kept (part :: parts) = kept parts :=
        List.filter_cons_of_neg (by simpa [Decidable.or_iff_not_imp_left] using idle)
      rw [if_pos idle, dropped]
      simpa [onward] using ih done
    rw [if_neg idle]
    by_cases back : part = up
    · simp [back]
    · have taken : kept (part :: parts) = part :: kept parts :=
        List.filter_cons_of_pos (by simpa [not_or] using idle)
      rw [if_neg back, taken]
      simpa [Ne.symm back] using ih (done ++ [part])

theorem readParts?_eq (done : List Bytes) (begun text : Bytes) :
    readParts? done begun text =
      ((segments (withSlashes text)).modifyHead (begun ++ ·)).foldlM keep? done := by
  induction text generalizing done begun with
  | nil => simp [readParts?, segments, withSlashes]
  | cons b text ih =>
    have whole : withSlashes (b :: text) =
        (if b = backslash then slash else b) :: withSlashes text := rfl
    rw [readParts?, whole, segments_cons]
    by_cases separates : b = slash ∨ b = backslash
    · have slashed : (if b = backslash then slash else b) = slash := by
        rcases separates with rfl | rfl <;> rfl
      rw [if_pos separates, if_pos slashed, List.modifyHead_cons, List.append_nil,
        List.foldlM_cons]
      cases keep? done begun with
      | none => rfl
      | some done =>
        refine (ih done []).trans ?_
        cases segments (withSlashes text) <;> rfl
    · rw [not_or] at separates
      rw [if_neg (not_or.mpr separates), if_neg separates.2, if_neg separates.1, ih]
      cases segments (withSlashes text) <;> simp

/-- The form of a name that is read from the front to its end: its kept parts with slashes between
them, which may be none, and nothing at all if one of them goes up. -/
def readName (name : Bytes) : Bytes := ((readParts? [] [] name).map join).getD []

private theorem readParts?_start (name : Bytes) :
    readParts? [] [] name =
      if up ∈ segments (withSlashes name) then none
      else some (kept (segments (withSlashes name))) := by
  have start : (segments (withSlashes name)).modifyHead ([] ++ ·) =
      segments (withSlashes name) := by
    cases segments (withSlashes name) <;> rfl
  rw [readParts?_eq, start, foldlM_keep?, List.nil_append]

theorem canonical?_readName (name : Bytes) : (canonical? name).getD [] = readName name := by
  rw [canonical?_eq, readName, readParts?_start]
  by_cases back : up ∈ segments (withSlashes name)
  · rw [if_pos (.inr back), if_pos back]
    rfl
  · rw [if_neg back]
    by_cases none : kept (segments (withSlashes name)) = []
    · rw [if_pos (.inl none), none]
      rfl
    · rw [if_neg (not_or.mpr ⟨none, back⟩)]
      rfl

theorem canonical?_of_canonical (canonical : Canonical path) : canonical? path = some path := by
  have whole : kept (segments path) = segments path := by
    refine List.filter_eq_self.mpr fun part member => ?_
    obtain ⟨filled, moving, _⟩ := canonical.segment_ne member
    exact decide_eq_true ⟨filled, moving⟩
  have onward : up ∉ segments path := fun member => (canonical.segment_ne member).2.2 rfl
  rw [canonical?_eq, withSlashes_eq canonical.1, whole,
    if_neg (not_or.mpr ⟨segments_ne_nil path, onward⟩), join_segments]

private theorem canonical?_again (name : Bytes) :
    canonical? ((canonical? name).getD []) = canonical? name := by
  cases found : canonical? name with
  | none => rfl
  | some path => exact canonical?_of_canonical (canonical_of_canonical? found)

theorem join_kept_inj {parts' : List Bytes} (plain : ∀ part ∈ parts, slash ∉ part)
    (plain' : ∀ part ∈ parts', slash ∉ part) (nonempty : kept parts ≠ [])
    (nonempty' : kept parts' ≠ []) :
    join (kept parts) = join (kept parts') ↔ kept parts = kept parts' := by
  constructor
  · intro same
    have whole : segments (join (kept parts)) = kept parts :=
      segments_join (fun part member => plain part (List.mem_filter.mp member).1) nonempty
    have whole' : segments (join (kept parts')) = kept parts' :=
      segments_join (fun part member => plain' part (List.mem_filter.mp member).1) nonempty'
    rw [← whole, same, whole']
  · exact congrArg join

private theorem canonical?_eq_none (name : Bytes) :
    canonical? name = none ↔ up ∈ segments (withSlashes name) ∨
      ∀ part ∈ segments (withSlashes name), part = [] ∨ part = here := by
  rw [canonical?_eq, ← kept_eq_nil]
  split
  case isTrue refused => exact iff_of_true rfl refused.symm
  case isFalse formed => exact iff_of_false (Option.some_ne_none _) (formed ∘ Or.symm)

private theorem eq_join_of_canonical? (found : canonical? name = some path) :
    path = join (kept (segments (withSlashes name))) := by
  rw [canonical?_eq, Option.ite_none_left_eq_some] at found
  exact (Option.some.inj found.2).symm

theorem canonical?_eq_iff (name other : Bytes) :
    canonical? name ≠ none ∧ canonical? name = canonical? other ↔
      up ∉ segments (withSlashes name) ∧ up ∉ segments (withSlashes other) ∧
        kept (segments (withSlashes name)) ≠ [] ∧
        kept (segments (withSlashes name)) = kept (segments (withSlashes other)) := by
  have inj := @join_kept_inj (segments (withSlashes name)) (segments (withSlashes other))
    (fun _ => slash_notMem) (fun _ => slash_notMem)
  rw [canonical?_eq, canonical?_eq]
  generalize segments (withSlashes name) = parts, segments (withSlashes other) = parts' at inj
  by_cases refused : kept parts = [] ∨ up ∈ parts
  · rw [if_pos refused]
    constructor
    · exact fun ⟨form, _⟩ => absurd rfl form
    · rintro ⟨onward, _, nonempty, _⟩
      exact absurd refused (not_or.mpr ⟨nonempty, onward⟩)
  · rw [if_neg refused]
    rw [not_or] at refused
    by_cases refused' : kept parts' = [] ∨ up ∈ parts'
    · rw [if_pos refused']
      constructor
      · rintro ⟨_, impossible⟩
        cases impossible
      · rintro ⟨_, onward, nonempty, same⟩
        exact absurd refused' (not_or.mpr ⟨same ▸ nonempty, onward⟩)
    · rw [if_neg refused']
      rw [not_or] at refused'
      simp only [ne_eq, reduceCtorEq, not_false_eq_true, true_and, Option.some.injEq, refused,
        refused', inj refused.1 refused'.1]

/-- The canonical form of a name, for which nothing stands where it is empty. A name is split in a
single way at its slashes and backslashes. It has no form just if one of its parts goes up or all of
them lead nowhere, and else the form of the parts that lead somewhere with a slash between them. It
is read in one pass, is its own form, and is that of another name just if the same parts of both lead
somewhere and none goes up. -/
theorem canonical?_exact (name other : Bytes) : ∃ parts parts',
    (∀ list, Splits name list ↔ list = parts) ∧ (∀ list, Splits other list ↔ list = parts') ∧
    (canonical? name = none ↔ up ∈ parts ∨ ∀ part ∈ parts, part = [] ∨ part = here) ∧
    (∀ path, canonical? name = some path → path ≠ [] ∧ path = join (kept parts)) ∧
    (canonical? name).getD [] = readName name ∧
    canonical? ((canonical? name).getD []) = canonical? name ∧
    (canonical? name ≠ none ∧ canonical? name = canonical? other ↔
      up ∉ parts ∧ up ∉ parts' ∧ kept parts ≠ [] ∧ kept parts = kept parts') := by
  refine ⟨_, _, fun list => splits_iff, fun list => splits_iff, canonical?_eq_none name, ?_,
    canonical?_readName name, canonical?_again name, canonical?_eq_iff name other⟩
  intro path found
  exact ⟨(canonical_of_canonical? found).ne_nil, eq_join_of_canonical? found⟩

end Unbundle.Path
