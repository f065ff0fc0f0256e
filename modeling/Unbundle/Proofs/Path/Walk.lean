import Unbundle.Proofs.Path.Parent
import Unbundle.Proofs.Path.Specifier
import Mathlib.Data.List.Induction

/-!
The walk of a specifier. Main statement: a specifier leads through its segments, behind those of the
requiring module's directory if it is relative, never above the root; and what it leads to is
nothing or a path that leads to itself.
-/

namespace Unbundle.Specifier

open Ascii Unbundle.Path

/-- A walk through segments keeps the names that it comes to. To go up drops the name that was kept
last, if there is any. -/
inductive Walks : List Bytes → List Bytes → Prop
  | start : Walks [] []
  | pass {front kept : List Bytes} {segment : Bytes} (walked : Walks front kept)
      (idle : isIdle segment = true) : Walks (front ++ [segment]) kept
  | back {front kept : List Bytes} (walked : Walks front kept) :
      Walks (front ++ [up]) kept.dropLast
  | keep {front kept : List Bytes} {segment : Bytes} (walked : Walks front kept)
      (proper : isIdle segment = false) (onward : segment ≠ up) :
      Walks (front ++ [segment]) (kept ++ [segment])

/-- A path that a module can be looked up under. -/
structure Usable (path : Bytes) : Prop where
  canonical : Canonical path
  extended : dot ∈ lastSegment path

/-- A name that a walk can keep once all backslashes are slashes. -/
def Proper (name : Bytes) : Prop :=
  slash ∉ name ∧ backslash ∉ name ∧ isIdle name = false ∧ name ≠ up

/-- The path of the names that were kept, as a script if the last one has no extension. -/
def complete (kept : List Bytes) : Bytes :=
  join kept ++ if ∃ last ∈ kept.getLast?, dot ∉ last then utf8 ".js" else []

variable {parts kept trail : List Bytes} {path segment : Bytes}

theorem step_idle (idle : isIdle segment = true) : step trail segment = trail := by
  simp [step, idle]

theorem step_up (trail : List Bytes) : step trail up = trail.tail := rfl

theorem step_proper (proper : isIdle segment = false) (onward : segment ≠ up) :
    step trail segment = segment :: trail := by
  simp [step, proper, onward]

private theorem Walks.foldl_eq (walked : Walks parts kept) :
    parts.foldl step [] = kept.reverse := by
  induction walked with
  | start => rfl
  | pass _ idle ih => simp [ih, step_idle idle]
  | back _ ih => rw [List.foldl_concat, ih, step_up, List.tail_reverse]
  | keep _ proper onward ih => simp [ih, step_proper proper onward]

private theorem walks_foldl (parts : List Bytes) : Walks parts (parts.foldl step []).reverse := by
  induction parts using List.reverseRec with
  | nil => exact .start
  | append_singleton front segment ih =>
    rw [List.foldl_concat]
    by_cases idle : isIdle segment = true
    · rw [step_idle idle]
      exact .pass ih idle
    · by_cases back : segment = up
      · subst back
        rw [step_up, ← List.dropLast_reverse]
        exact ih.back
      · rw [step_proper (Bool.eq_false_iff.mpr idle) back, List.reverse_cons]
        exact .keep ih (Bool.eq_false_iff.mpr idle) back

/-- There is just one way to walk. -/
theorem walks_iff : Walks parts kept ↔ kept = (parts.foldl step []).reverse := by
  constructor
  · intro walked
    rw [walked.foldl_eq, List.reverse_reverse]
  · rintro rfl
    exact walks_foldl parts

/-- A walk keeps nothing but proper names that it comes to. -/
theorem Walks.proper (walked : Walks parts kept) :
    ∀ name ∈ kept, name ∈ parts ∧ isIdle name = false ∧ name ≠ up := by
  induction walked with
  | start => simp
  | pass _ _ ih =>
    exact fun name member => ⟨List.mem_append_left _ (ih name member).1, (ih name member).2⟩
  | back _ ih =>
    intro name member
    obtain ⟨found, proper⟩ := ih name (List.dropLast_subset _ member)
    exact ⟨List.mem_append_left _ found, proper⟩
  | keep _ proper onward ih =>
    intro name member
    rcases List.mem_append.mp member with earlier | last
    · exact ⟨List.mem_append_left _ (ih name earlier).1, (ih name earlier).2⟩
    · obtain rfl := List.mem_singleton.mp last
      exact ⟨List.mem_append_right _ last, proper, onward⟩

theorem proper_walk (plain : backslash ∉ path) : ∀ name ∈ walk path, Proper name := by
  intro name member
  have walked : Walks (segments path) (walk path) := walks_iff.mpr rfl
  obtain ⟨segment, kept⟩ := walked.proper name member
  exact ⟨slash_notMem segment,
    fun within => plain ((mem_iff_segments (by decide)).mpr ⟨name, segment, within⟩), kept⟩

private theorem walk_canonical (canonical : Canonical path) : walk path = segments path := by
  simp [walk, foldl_step canonical.2]

theorem isRelative_iff :
    isRelative path = true ↔ utf8 "./" <+: path ∨ utf8 "../" <+: path := by
  rw [isRelative, Bool.or_eq_true, List.isPrefixOf_iff_prefix, List.isPrefixOf_iff_prefix]
  rfl

theorem not_isRelative (canonical : Canonical path) : isRelative path = false := by
  have first (name : Bytes) (plain : slash ∉ name) (begins : name ++ [slash] <+: path) :
      name ∈ segments path := by
    obtain ⟨rest, rfl⟩ := begins
    have single : segments name = [name] := List.splitOn_eq_singleton plain
    simp [segments_append, segments_cons, lastSegment, single]
  rw [← Bool.not_eq_true, isRelative_iff]
  rintro (begins | begins)
  · exact absurd (canonical.2 here (first here (by decide) begins)).1 (by decide)
  · exact (canonical.2 up (first up (by decide) begins)).2 rfl

theorem withSlashes_append (first second : Bytes) :
    withSlashes (first ++ second) = withSlashes first ++ withSlashes second :=
  List.map_append

/-- The directory of a module is empty or ends with a slash. -/
theorem directoryOf_cases (path : Bytes) : directoryOf path ++ lastSegment path = path ∧
    (directoryOf path = [] ∨ ∃ outer, directoryOf path = outer ++ [slash]) := by
  have directory {front : Bytes} (whole : front ++ lastSegment path = path) :
      directoryOf path = front := by
    rw [directoryOf]
    generalize lastSegment path = last at whole
    simp [← whole]
  have whole := join_segments path
  rw [← dropLast_append_lastSegment path] at whole
  cases outer : (segments path).dropLast with
  | nil =>
    have single : [] ++ lastSegment path = path := by
      simpa [outer, join, List.intercalate] using whole
    rw [directory single]
    exact ⟨single, .inl rfl⟩
  | cons first others =>
    have behind : (join (first :: others) ++ [slash]) ++ lastSegment path = path := by
      rw [outer, join_concat (List.cons_ne_nil _ _)] at whole
      simpa using whole
    rw [directory behind]
    exact ⟨behind, .inr ⟨_, rfl⟩⟩

theorem lastSegment_directoryOf (path : Bytes) :
    lastSegment (withSlashes (directoryOf path)) = [] := by
  rcases (directoryOf_cases path).2 with root | ⟨outer, inner⟩
  · rw [root]
    rfl
  · rw [inner, withSlashes_append]
    exact lastSegment_concat_slash _

/-- What ends with a slash stands in front of a path with all its segments. -/
theorem walk_append {front : Bytes} (ends : lastSegment front = []) (path : Bytes) :
    walk (front ++ path) = ((segments front ++ segments path).foldl step []).reverse := by
  obtain ⟨first, others, parts⟩ := List.exists_cons_of_ne_nil (segments_ne_nil path)
  have joined : segments (front ++ path) = (segments front).dropLast ++ segments path := by
    simp [segments_append, ends, parts]
  have whole := dropLast_append_lastSegment front
  rw [ends] at whole
  rw [walk, joined, ← whole, List.dropLast_concat, List.append_assoc, List.foldl_append,
    List.foldl_append]
  rfl

theorem resolve_eq (requiring specifier : Bytes) : resolve requiring specifier =
    complete (walk (withSlashes
      (if isRelative specifier then directoryOf requiring ++ specifier else specifier))) := by
  simp only [resolve, complete]
  generalize walk _ = kept
  cases found : kept.getLast? with
  | none => simp [List.getLast?_eq_none_iff.mp found, join, List.intercalate]
  | some last => by_cases dotted : dot ∈ last <;> simp [dotted]

/-- Kept names make a usable path, if there are any. -/
theorem usable_complete (nonempty : kept ≠ []) (proper : ∀ name ∈ kept, Proper name) :
    Usable (complete kept) := by
  have parts : segments (join kept) = kept :=
    segments_join (fun name member => (proper name member).1) nonempty
  have canonical : Canonical (join kept) := by
    refine ⟨fun member => ?_, fun name member => (proper name (parts ▸ member)).2.2⟩
    obtain ⟨name, kept, within⟩ := (mem_iff_segments (by decide)).mp member
    exact (proper name (parts ▸ kept)).2.1 within
  have last : kept.getLast? = some (lastSegment (join kept)) := by
    rw [← parts, join_segments, ← dropLast_append_lastSegment (join kept), List.getLast?_concat]
  by_cases dotted : dot ∈ lastSegment (join kept)
  · have same : complete kept = join kept := by simp [complete, last, dotted]
    exact same ▸ ⟨canonical, dotted⟩
  · have script : complete kept = join kept ++ utf8 ".js" := by simp [complete, last, dotted]
    rw [script]
    refine ⟨canonical.append (by decide +kernel) (by decide +kernel), ?_⟩
    rw [lastSegment_append_plain _ (by decide +kernel)]
    exact List.mem_append_right _ (by decide +kernel)

/-- What a specifier leads to is nothing or usable. -/
theorem usable_resolve (requiring specifier : Bytes) :
    resolve requiring specifier = [] ∨ Usable (resolve requiring specifier) := by
  rw [resolve_eq]
  generalize whole : withSlashes _ = path
  have plain : backslash ∉ path := whole ▸ backslash_notMem_withSlashes _
  by_cases nothing : walk path = []
  · exact .inl (by simp [nothing, complete, join, List.intercalate])
  · exact .inr (usable_complete nothing (proper_walk plain))

/-- No name is kept on the way of a specifier. -/
def LeadsNowhere (requiring specifier : Bytes) : Prop :=
  Walks (segments (withSlashes
    (if isRelative specifier then directoryOf requiring ++ specifier else specifier))) []

theorem resolve_eq_nil {requiring specifier : Bytes} :
    resolve requiring specifier = [] ↔ LeadsNowhere requiring specifier := by
  rw [resolve_eq, LeadsNowhere, walks_iff, ← walk]
  generalize whole : withSlashes _ = path
  have plain : backslash ∉ path := whole ▸ backslash_notMem_withSlashes _
  constructor
  · intro empty
    by_contra kept
    exact (usable_complete (Ne.symm kept) (proper_walk plain)).canonical.ne_nil empty
  · intro nothing
    simp [← nothing, complete, join, List.intercalate]

/-- A usable path leads to itself from everywhere. -/
theorem Usable.resolve_eq (usable : Usable path) (requiring : Bytes) :
    resolve requiring path = path := by
  have last : (segments path).getLast? = some (lastSegment path) := by
    rw [← dropLast_append_lastSegment path, List.getLast?_concat]
  simp [Specifier.resolve_eq, not_isRelative usable.canonical, withSlashes_eq usable.canonical.1,
    walk_canonical usable.canonical, complete, join_segments, last, usable.extended]

/-- A specifier written with slashes leads through its segments. If it starts with a dot segment,
those of the requiring module's directory stand before them. What any specifier leads to is nothing
or a canonical path with an extension, and leads to itself from every module. -/
theorem resolve_walk (requiring specifier : Bytes) :
    (backslash ∉ specifier →
      ∃ kept, (∀ other, other = kept ↔ Walks
          ((if utf8 "./" <+: specifier ∨ utf8 "../" <+: specifier then
            segments (withSlashes (directoryOf requiring)) else []) ++ segments specifier) other) ∧
        resolve requiring specifier = complete kept) ∧
    (resolve requiring specifier = [] ∨
      Canonical (resolve requiring specifier) ∧ dot ∈ lastSegment (resolve requiring specifier)) ∧
    ∀ other, resolve other (resolve requiring specifier) = resolve requiring specifier := by
  have usable := usable_resolve requiring specifier
  refine ⟨?walk, usable.imp_right fun usable => ⟨usable.canonical, usable.extended⟩, ?again⟩
  case walk =>
    intro plain
    refine ⟨_, fun other => ?_, resolve_eq requiring specifier⟩
    rw [walks_iff]
    by_cases relative : isRelative specifier = true
    · rw [if_pos relative, if_pos (isRelative_iff.mp relative), withSlashes_append,
        withSlashes_eq plain, walk_append (lastSegment_directoryOf requiring)]
    · rw [if_neg relative, if_neg (isRelative_iff.not.mp relative), withSlashes_eq plain,
        List.nil_append, walk]
  case again =>
    intro other
    rcases usable with nothing | usable
    · rw [nothing]
      rfl
    · exact usable.resolve_eq other

/-- A specifier that climbs over the root starts again from there. -/
theorem resolve_walk_sample :
    let requiring := utf8 "pages/a/m.js"
    let specifier := utf8 "../../../lib//./x"
    backslash ∉ specifier ∧ directoryOf requiring = utf8 "pages/a/" ∧
      (∃ kept, Walks (segments (utf8 "pages/a/") ++ segments specifier) kept ∧
        resolve requiring specifier = complete kept) ∧
      resolve requiring specifier = utf8 "lib/x.js" := by
  intro requiring specifier
  have plain : backslash ∉ specifier := by decide
  obtain ⟨kept, walks, found⟩ := (resolve_walk requiring specifier).1 plain
  exact ⟨plain, by decide, ⟨kept, (walks kept).mp rfl, found⟩, by decide⟩

end Unbundle.Specifier
