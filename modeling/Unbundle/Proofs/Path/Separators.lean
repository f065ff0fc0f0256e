import Unbundle.Proofs.Path.Walk

/-!
Separators of a specifier. Main statement: a backslash means the same as a slash everywhere but
right behind the dots that a specifier starts with. There the directory of the requiring module is
passed over, which makes a difference unless the specifier leads out of this directory anyway.
-/

namespace Unbundle.Specifier

open Ascii Unbundle.Path

/-- How many directories above its start a walk through segments goes. -/
def climb : List Bytes → Nat
  | [] => 0
  | segment :: parts =>
    if isIdle segment then climb parts
    else if segment = up then climb parts + 1
    else climb parts - 1

variable {parts kept more : List Bytes} {path requiring specifier : Bytes}

theorem foldl_step_drop (parts trail : List Bytes) :
    parts.foldl step trail = parts.foldl step [] ++ trail.drop (climb parts) := by
  induction parts generalizing trail with
  | nil => rfl
  | cons segment parts ih =>
    rw [List.foldl_cons, List.foldl_cons, climb]
    by_cases idle : isIdle segment = true
    · rw [step_idle idle, step_idle idle, if_pos idle, ih]
    · rw [if_neg idle]
      by_cases back : segment = up
      · subst back
        rw [if_pos rfl, step_up, step_up, ih trail.tail, List.drop_tail]
        rfl
      · have proper := Bool.eq_false_iff.mpr idle
        rw [step_proper proper back, step_proper proper back, if_neg back, ih (segment :: trail),
          ih [segment]]
        cases climb parts <;> simp

/-- The names that a walk comes to, whether or not it drops them later. -/
def countNames (parts : List Bytes) : Nat :=
  parts.countP fun segment => !isIdle segment && segment ≠ up

theorem le_climb_iff {n : Nat} :
    n ≤ climb parts ↔ ∃ front, front <+: parts ∧ countNames front + n ≤ front.count up := by
  induction parts generalizing n with
  | nil => simp [climb, countNames]
  | cons segment parts ih =>
    have fronts : (∃ front, front <+: segment :: parts ∧ countNames front + n ≤ front.count up) ↔
        n = 0 ∨ ∃ front, front <+: parts ∧
          countNames (segment :: front) + n ≤ (segment :: front).count up := by
      simp [List.prefix_cons_iff, or_and_right, exists_or, countNames]
    rw [fronts, climb]
    by_cases idle : isIdle segment = true
    · have still : segment ≠ up := by
        rintro rfl
        cases idle
      have same (front : List Bytes) : countNames (segment :: front) = countNames front ∧
          (segment :: front).count up = front.count up := by simp [countNames, idle, still]
      simp only [if_pos idle, same, ← ih]
      omega
    · rw [if_neg idle]
      by_cases back : segment = up
      · subst back
        have higher (front : List Bytes) : countNames (up :: front) = countNames front ∧
            (up :: front).count up = front.count up + 1 := by simp [countNames]
        cases n with
        | zero => simp
        | succ n => simp [higher, ← Nat.add_assoc, ← ih]
      · have lower (front : List Bytes) :
            countNames (segment :: front) + n = countNames front + (n + 1) ∧
              (segment :: front).count up = front.count up := by
          simp [countNames, idle, back, Nat.add_comm n, Nat.add_assoc]
        simp only [if_neg back, lower, ← ih]
        omega

theorem complete_append_eq (proper : ∀ name ∈ more ++ kept, Proper name) :
    complete kept = complete (more ++ kept) ↔ more = [] := by
  constructor
  · intro same
    by_contra some
    have usable := usable_complete (List.append_ne_nil_of_left_ne_nil some kept) proper
    cases kept with
    | nil => exact usable.canonical.ne_nil same.symm
    | cons first others =>
      have plain : ∀ name ∈ more ++ first :: others, slash ∉ name := fun name member =>
        (proper name member).1
      have joined : join (first :: others) = join (more ++ first :: others) := by
        have last := List.getLast?_append_of_ne_nil more (List.cons_ne_nil first others)
        rw [complete, complete, last] at same
        exact List.append_cancel_right same
      have parts := congrArg segments joined
      rw [segments_join (fun name member => plain name (List.mem_append_right _ member)) (by simp),
        segments_join plain (by simp)] at parts
      exact some (List.self_eq_append_left.mp parts)
  · rintro rfl
    rfl

private theorem withSlashes_withSlashes (path : Bytes) :
    withSlashes (withSlashes path) = withSlashes path :=
  withSlashes_eq (backslash_notMem_withSlashes path)

theorem begins_withSlashes {name : Bytes} (noSlash : slash ∉ name)
    (noBackslash : backslash ∉ name) : name ++ [slash] <+: withSlashes path ↔
      name ++ [slash] <+: path ∨ name ++ [backslash] <+: path := by
  induction name generalizing path with
  | nil =>
    cases path with
    | nil => simp [withSlashes]
    | cons b path => by_cases turned : b = backslash <;> simp [withSlashes, turned, eq_comm]
  | cons first name ih =>
    simp only [List.mem_cons, not_or] at noSlash noBackslash
    cases path with
    | nil => simp [withSlashes]
    | cons b path =>
      have same : first = (if b = backslash then slash else b) ↔ first = b := by
        by_cases turned : b = backslash
        · simp [turned, Ne.symm noSlash.1, Ne.symm noBackslash.1]
        · simp [turned]
      have rest := @ih path noSlash.2 noBackslash.2
      simp only [withSlashes, List.cons_append, List.map_cons, List.cons_prefix_cons,
        same] at rest ⊢
      rw [rest, and_or_left]

/-- Specifiers that look relative only once their backslashes are read as slashes. -/
def Misled (specifier : Bytes) : Prop := utf8 ".\\" <+: specifier ∨ utf8 "..\\" <+: specifier

private theorem isRelative_withSlashes :
    isRelative (withSlashes specifier) = true ↔ isRelative specifier = true ∨ Misled specifier := by
  have one := @begins_withSlashes specifier here (by decide) (by decide)
  have two := @begins_withSlashes specifier up (by decide) (by decide)
  rw [isRelative_iff, isRelative_iff, Misled]
  exact (or_congr one two).trans or_or_or_comm

theorem Misled.not_isRelative (misled : Misled specifier) : isRelative specifier = false := by
  rcases misled with ⟨rest, rfl⟩ | ⟨rest, rfl⟩ <;> rfl

private theorem withSlashes_directoryOf (canonical : Canonical requiring) :
    withSlashes (directoryOf requiring) = directoryOf requiring :=
  withSlashes_eq fun member => canonical.1 (List.mem_of_mem_take member)

theorem segments_directoryOf (canonical : Canonical requiring) :
    segments (directoryOf requiring) = (segments requiring).dropLast ++ [[]] := by
  have ends := lastSegment_directoryOf requiring
  rw [withSlashes_directoryOf canonical] at ends
  have single : segments (lastSegment requiring) = [lastSegment requiring] :=
    List.splitOn_eq_singleton (slash_notMem (lastSegment_mem requiring))
  have whole : segments requiring =
      (segments (directoryOf requiring)).dropLast ++ [lastSegment requiring] := by
    rw [← congrArg segments (directoryOf_cases requiring).1, segments_append, single, ends]
    rfl
  rw [congrArg List.dropLast whole, List.dropLast_concat, ← ends]
  exact (dropLast_append_lastSegment _).symm

/-- The names of the directory that a walk from there does not drop stand in front of what it keeps
from the root. -/
theorem walk_directoryOf_append (canonical : Canonical requiring) (path : Bytes) :
    walk (directoryOf requiring ++ path) =
      ((segments requiring).dropLast.reverse.drop (climb (segments path))).reverse ++
        walk path := by
  have ends := lastSegment_directoryOf requiring
  rw [withSlashes_directoryOf canonical] at ends
  have proper : ∀ name ∈ (segments requiring).dropLast, isIdle name = false ∧ name ≠ up :=
    fun name member => canonical.2 name (List.dropLast_subset _ member)
  have inner : ((segments requiring).dropLast ++ [[]]).foldl step [] =
      (segments requiring).dropLast.reverse := by
    rw [List.foldl_concat, foldl_step proper, List.append_nil]
    rfl
  rw [walk_append ends, segments_directoryOf canonical, List.foldl_append, inner,
    foldl_step_drop, List.reverse_append]
  rfl

/-- A backslash in a specifier means the same as a slash, unless the specifier starts with one
behind one dot or two. Even then it does if some front part of the specifier goes up so often that
it leaves the directory of the requiring module, and only then. -/
theorem resolve_withSlashes_iff (canonical : Canonical requiring) (specifier : Bytes) :
    resolve requiring specifier = resolve requiring (withSlashes specifier) ↔
      ¬(utf8 ".\\" <+: specifier ∨ utf8 "..\\" <+: specifier) ∨
        ∃ front, front <+: segments (withSlashes specifier) ∧
          countNames front + (segments requiring).dropLast.length ≤ front.count up := by
  have plain := withSlashes_directoryOf canonical
  rw [← Misled, ← le_climb_iff, resolve_eq, resolve_eq]
  by_cases misled : Misled specifier
  · have turned : isRelative (withSlashes specifier) = true :=
      isRelative_withSlashes.mpr (.inr misled)
    have proper : ∀ name ∈ ((segments requiring).dropLast.reverse.drop
          (climb (segments (withSlashes specifier)))).reverse ++ walk (withSlashes specifier),
        Proper name := by
      rw [← walk_directoryOf_append canonical]
      apply proper_walk
      rw [← plain, ← withSlashes_append]
      exact backslash_notMem_withSlashes _
    simp only [misled.not_isRelative, turned, Bool.false_eq_true, if_false, if_true,
      withSlashes_append, withSlashes_withSlashes, plain, walk_directoryOf_append canonical,
      complete_append_eq proper, not_true, false_or, misled]
    simp
  · have same : isRelative (withSlashes specifier) = isRelative specifier := by
      rw [Bool.eq_iff_iff, isRelative_withSlashes]
      simp [misled]
    simp only [misled, not_false_eq_true, true_or, iff_true, same]
    split <;> simp [withSlashes_append, withSlashes_withSlashes]

/-- Between the separators only those that a specifier starts with make a difference, as long as it
stays in the directory of the requiring module. -/
theorem resolve_withSlashes_iff_sample :
    Canonical (utf8 "pages/a/m.js") ∧
      resolve (utf8 "pages/a/m.js") (utf8 "../lib\\..\\x") =
        resolve (utf8 "pages/a/m.js") (withSlashes (utf8 "../lib\\..\\x")) ∧
      resolve (utf8 "pages/a/m.js") (utf8 "..\\..\\x") =
        resolve (utf8 "pages/a/m.js") (withSlashes (utf8 "..\\..\\x")) := by
  have canonical : Canonical (utf8 "pages/a/m.js") := by decide
  refine ⟨canonical, (resolve_withSlashes_iff canonical _).mpr (.inl ?_),
    (resolve_withSlashes_iff canonical _).mpr (.inr ⟨[up, up], ?_⟩)⟩ <;> decide

/-- A module that is named from the directory with a backslash is looked for at the root. -/
theorem resolve_misled :
    Canonical (utf8 "a/m.js") ∧ withSlashes (utf8 ".\\b") = utf8 "./b" ∧
      resolve (utf8 "a/m.js") (utf8 ".\\b") = utf8 "b.js" ∧
      resolve (utf8 "a/m.js") (utf8 "./b") = utf8 "a/b.js" := by
  decide

end Unbundle.Specifier
