import Unbundle.Path.Specifier
import Unbundle.Proofs.Path.Canonical

/-!
Specifiers from the root. Main statement: a canonical path behind a slash names itself, with the
script extension where its last segment has none.
-/

namespace Unbundle.Specifier

open Ascii Unbundle.Path

/-- Proper names are kept as they are. -/
theorem foldl_step {parts : List Bytes}
    (proper : ∀ segment ∈ parts, isIdle segment = false ∧ segment ≠ up) (trail : List Bytes) :
    parts.foldl step trail = parts.reverse ++ trail := by
  induction parts generalizing trail with
  | nil => rfl
  | cons segment parts ih =>
    obtain ⟨⟨leads, inside⟩, others⟩ := List.forall_mem_cons.mp proper
    have kept : step trail segment = segment :: trail := by
      rw [step, leads, if_neg inside]
      rfl
    rw [List.foldl_cons, kept, ih others, List.reverse_cons, List.append_assoc]
    rfl

private theorem walk_slash {path : Bytes} (canonical : Canonical path) :
    walk (slash :: path) = segments path := by
  have start : step [] [] = [] := rfl
  rw [walk, segments_cons, if_pos rfl, List.foldl_cons, start, foldl_step canonical.2,
    List.append_nil, List.reverse_reverse]

/-- From any module, a canonical path behind a slash names itself. -/
theorem resolve_slash {path : Bytes} (canonical : Canonical path) (requiring : Bytes) :
    resolve requiring (slash :: path) =
      if dot ∈ lastSegment path then path else path ++ utf8 ".js" := by
  have plain : backslash ∉ slash :: path := by
    rw [List.mem_cons, not_or]
    exact ⟨by decide, canonical.1⟩
  have last : (segments path).getLast? = some (lastSegment path) := by
    rw [← dropLast_append_lastSegment path, List.getLast?_concat]
  have absolute : isRelative (slash :: path) = false := rfl
  simp only [resolve, absolute, Bool.false_eq_true, if_false, withSlashes_eq plain,
    walk_slash canonical, last, join_segments]

end Unbundle.Specifier
