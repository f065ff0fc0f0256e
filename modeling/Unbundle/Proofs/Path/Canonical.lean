import Unbundle.Proofs.Path.Segment

namespace Unbundle.Path

open Ascii

theorem backslash_notMem_withSlashes (path : Bytes) : backslash ∉ withSlashes path := by
  intro member
  obtain ⟨b, _, same⟩ := List.mem_map.mp member
  by_cases separates : b = backslash
  · rw [if_pos separates] at same
    exact absurd same (by decide)
  · rw [if_neg separates] at same
    exact separates same

theorem withSlashes_eq {path : Bytes} (plain : backslash ∉ path) : withSlashes path = path := by
  have kept : ∀ b ∈ path, (if b = backslash then slash else b) = b := by
    intro b member
    rw [if_neg]
    rintro rfl
    exact plain member
  rw [withSlashes, List.map_congr_left kept, List.map_id']

theorem segments_of_canonical? {name path : Bytes} (found : canonical? name = some path) :
    segments path = (segments (withSlashes name)).filter (fun segment => !isIdle segment) ∧
      up ∉ segments path := by
  rw [canonical?] at found
  generalize parts : (segments (withSlashes name)).filter (fun segment => !isIdle segment) = kept
    at found ⊢
  by_cases refused : kept = [] ∨ up ∈ kept
  · rw [if_pos refused] at found
    cases found
  · rw [if_neg refused] at found
    cases found
    rw [not_or] at refused
    have plain : ∀ part ∈ kept, slash ∉ part := by
      intro part member
      rw [← parts] at member
      exact slash_notMem (List.mem_filter.mp member).1
    rw [segments_join plain refused.1]
    exact ⟨rfl, refused.2⟩

theorem canonical_of_canonical? {name path : Bytes} (found : canonical? name = some path) :
    Canonical path := by
  obtain ⟨parts, inside⟩ := segments_of_canonical? found
  constructor
  · intro member
    obtain ⟨segment, part, within⟩ := (mem_iff_segments (by decide)).mp member
    rw [parts] at part
    exact backslash_notMem_withSlashes name
      ((mem_iff_segments (by decide)).mpr ⟨segment, (List.mem_filter.mp part).1, within⟩)
  · intro segment member
    refine ⟨?_, fun same => inside (same ▸ member)⟩
    rw [parts] at member
    simpa using (List.mem_filter.mp member).2

namespace Canonical

variable {path : Bytes}

theorem ne_nil (canonical : Canonical path) : path ≠ [] := by
  rintro rfl
  have idle := (canonical.2 [] (by simp [segments])).1
  exact absurd idle (by decide)

/-- A canonical path is relative. -/
theorem head?_ne_slash (canonical : Canonical path) : path.head? ≠ some slash := by
  intro absolute
  obtain ⟨rest, rfl⟩ := List.head?_eq_some_iff.mp absolute
  have first : [] ∈ segments (slash :: rest) := by
    rw [segments_cons, if_pos rfl]
    exact List.mem_cons_self
  exact absurd (canonical.2 [] first).1 (by decide)

theorem segment_ne (canonical : Canonical path) {segment : Bytes}
    (member : segment ∈ segments path) : segment ≠ [] ∧ segment ≠ here ∧ segment ≠ up := by
  obtain ⟨proper, inside⟩ := canonical.2 segment member
  simp only [isIdle, Bool.or_eq_false_iff, decide_eq_false_iff_not] at proper
  exact ⟨proper.1, proper.2, inside⟩

/-- A longer name for the last component leaves a path canonical. -/
theorem append (canonical : Canonical path) {ending : Bytes} (long : 2 ≤ ending.length)
    (plain : ∀ b ∈ ending, b ≠ slash ∧ b ≠ backslash) : Canonical (path ++ ending) := by
  have last := lastSegment_mem path
  have whole : segments (path ++ ending) =
      (segments path).dropLast ++ [lastSegment path ++ ending] := by
    have single : segments ending = [ending] :=
      List.splitOn_eq_singleton fun member => (plain slash member).1 rfl
    rw [segments_append, single]
    rfl
  have different {name : Bytes} (short : name.length ≤ 2) : lastSegment path ++ ending ≠ name := by
    rintro rfl
    have positive := List.length_pos_iff.mpr (canonical.segment_ne last).1
    rw [List.length_append] at short
    omega
  constructor
  · rw [List.mem_append, not_or]
    exact ⟨canonical.1, fun member => (plain backslash member).2 rfl⟩
  · intro segment member
    rw [whole, List.mem_append, List.mem_singleton] at member
    rcases member with member | rfl
    · exact canonical.2 segment (List.dropLast_subset _ member)
    · simp only [isIdle, Bool.or_eq_false_iff, decide_eq_false_iff_not]
      exact ⟨⟨different (by decide), different (by decide)⟩, different (by decide)⟩

end Canonical

end Unbundle.Path
