import Unbundle.Path.FileName
import Unbundle.Path.Entry

namespace Unbundle.Path

open Ascii

theorem segments_cons (b : UInt8) (path : Bytes) :
    segments (b :: path) =
      if b = slash then [] :: segments path else (segments path).modifyHead (b :: ·) := by
  rw [segments, List.splitOn_cons_eq_if_modifyHead]
  simp only [beq_iff_eq]
  rfl

theorem segments_ne_nil (path : Bytes) : segments path ≠ [] := List.splitOn_ne_nil slash path

theorem slash_notMem {path segment : Bytes} (member : segment ∈ segments path) :
    slash ∉ segment := by
  induction path generalizing segment with
  | nil =>
    rw [segments, List.splitOn_nil, List.mem_singleton] at member
    rw [member]
    exact List.not_mem_nil
  | cons b path ih =>
    rw [segments_cons] at member
    by_cases separates : b = slash
    · rw [if_pos separates, List.mem_cons] at member
      rcases member with rfl | member
      · exact List.not_mem_nil
      · exact ih member
    · rw [if_neg separates] at member
      cases parts : segments path with
      | nil => exact absurd parts (segments_ne_nil path)
      | cons first others =>
        rw [parts, List.modifyHead_cons, List.mem_cons] at member
        rcases member with rfl | member
        · have plain := ih (parts ▸ List.mem_cons_self)
          simp only [List.mem_cons, not_or]
          exact ⟨Ne.symm separates, plain⟩
        · exact ih (parts ▸ List.mem_cons_of_mem first member)

/-- A byte of a path is a slash or belongs to one of the segments. -/
theorem mem_iff_segments {path : Bytes} {b : UInt8} (plain : b ≠ slash) :
    b ∈ path ↔ ∃ segment ∈ segments path, b ∈ segment := by
  induction path with
  | nil => simp [segments]
  | cons first path ih =>
    obtain ⟨segment, others, parts⟩ := List.exists_cons_of_ne_nil (segments_ne_nil path)
    rw [segments_cons]
    rw [parts] at ih
    by_cases separates : first = slash
    · rw [if_pos separates, parts]
      simp only [List.mem_cons, separates, plain, false_or, ih]
      simp
    · rw [if_neg separates, parts]
      simp only [List.mem_cons, ih, List.modifyHead_cons, exists_eq_or_imp]
      rw [or_assoc]

theorem segments_append (path suffix : Bytes) :
    segments (path ++ suffix) =
      (segments path).dropLast ++ (segments suffix).modifyHead (lastSegment path ++ ·) := by
  induction path with
  | nil =>
    obtain ⟨first, others, parts⟩ := List.exists_cons_of_ne_nil (segments_ne_nil suffix)
    rw [List.nil_append, parts]
    rfl
  | cons b path ih =>
    obtain ⟨first, others, parts⟩ := List.exists_cons_of_ne_nil (segments_ne_nil path)
    have whole := segments_cons b path
    rw [List.cons_append, segments_cons, ih, lastSegment, lastSegment, whole, parts]
    by_cases separates : b = slash
    · rw [if_pos separates, if_pos separates]
      rfl
    · rw [if_neg separates, if_neg separates]
      cases others with
      | nil => cases segments suffix <;> rfl
      | cons second others => rfl

/-- The last segment with the others before it is all there is. -/
theorem dropLast_append_lastSegment (path : Bytes) :
    (segments path).dropLast ++ [lastSegment path] = segments path := by
  rw [lastSegment, List.getLastD_eq_getLast?, List.getLast?_eq_some_getLast (segments_ne_nil path)]
  exact List.dropLast_concat_getLast (segments_ne_nil path)

theorem lastSegment_mem (path : Bytes) : lastSegment path ∈ segments path := by
  rw [← dropLast_append_lastSegment path]
  exact List.mem_append_right _ (List.mem_singleton_self _)

/-- Behind a slash at the end stands nothing. -/
theorem lastSegment_concat_slash (path : Bytes) : lastSegment (path ++ [slash]) = [] := by
  have whole : segments (path ++ [slash]) = segments path ++ [[]] := by
    rw [segments, List.splitOn_append_cons_self]
    rfl
  rw [lastSegment, whole]
  simp

/-- All segments but the last one of a front part are segments of the whole. -/
theorem mem_segments_of_mem_dropLast {front path segment : Bytes} (part : front <+: path)
    (member : segment ∈ (segments front).dropLast) : segment ∈ segments path := by
  obtain ⟨behind, rfl⟩ := part
  rw [segments_append]
  exact List.mem_append_left _ member

end Unbundle.Path
