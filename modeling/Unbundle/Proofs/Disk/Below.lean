import Unbundle.Proofs.Disk.Reach
import Unbundle.Proofs.Path.Canonical
import Unbundle.Proofs.Path.Parent

namespace Unbundle

open Ascii

namespace Bytes

variable {first second : Bytes}

theorem untilNul_plain (plain : nul ∉ first) :
    untilNul (first ++ second) = first ++ untilNul second := by
  rw [untilNul, List.takeWhile_append_of_pos]
  · rfl
  · intro b member
    simp only [ne_eq, decide_not, Bool.not_eq_true', decide_eq_false_iff_not]
    rintro rfl
    exact plain member

theorem untilNul_cut (cut : nul ∈ first) : untilNul (first ++ second) = untilNul first := by
  obtain ⟨before, behind, rfl, plain⟩ := List.eq_append_cons_of_mem cut
  rw [List.append_assoc, untilNul_plain plain, untilNul_plain plain]
  rfl

theorem untilNul_eq_self (plain : nul ∉ first) : untilNul first = first := by
  have whole : untilNul (first ++ []) = first ++ untilNul [] := untilNul_plain plain
  rwa [List.append_nil, show untilNul [] = [] from rfl, List.append_nil] at whole

theorem untilNul_prefix (text : Bytes) : untilNul text <+: text := List.takeWhile_prefix _

end Bytes

namespace Disk

theorem names_append {stem : Bytes} (ends : Path.lastSegment stem = []) (path : Bytes) :
    names (stem ++ path) = names stem ++ names path := by
  have parts := Path.dropLast_append_lastSegment stem
  obtain ⟨first, others, segments⟩ := List.exists_cons_of_ne_nil (Path.segments_ne_nil path)
  rw [names, names, names, Path.segments_append, ends, ← parts, ends, segments]
  simp

private theorem names_append_slash (front back : Bytes) :
    names (front ++ slash :: back) = names front ++ names back := by
  rw [names, Path.segments, List.splitOn_append_cons_self, List.filter_append]
  rfl

theorem names_slashes {text : Bytes} (slashes : ∀ b ∈ text, b = slash) :
    names text = [] := by
  induction text with
  | nil => rfl
  | cons b text ih =>
    obtain ⟨rfl, others⟩ := List.forall_mem_cons.mp slashes
    have rest := ih others
    rw [← List.nil_append (slash :: text), names_append_slash, rest]
    rfl

theorem names_plain {name : Bytes} (nonempty : name ≠ []) (plain : slash ∉ name) :
    names name = [name] := by
  have single : Path.segments name = [name] := List.splitOn_eq_singleton plain
  rw [names, single]
  exact List.filter_eq_self.mpr (by simpa using nonempty)

/-- Slashes at the end of a text name nothing more. -/
theorem names_append_slashes (front : Bytes) {ending : Bytes} (slashes : ∀ b ∈ ending, b = slash) :
    names (front ++ ending) = names front := by
  cases ending with
  | nil => rw [List.append_nil]
  | cons b ending =>
    obtain ⟨rfl, others⟩ := List.forall_mem_cons.mp slashes
    rw [names_append_slash, names_slashes others, List.append_nil]

/-- A text that does not start at the root names something. -/
theorem names_ne_nil {text : Bytes} (nonempty : text ≠ []) (relative : isAbsolute text ≠ true) :
    names text ≠ [] := by
  obtain ⟨b, rest, rfl⟩ := List.exists_cons_of_ne_nil nonempty
  obtain ⟨first, others, parts⟩ := List.exists_cons_of_ne_nil (Path.segments_ne_nil rest)
  have different : b ≠ slash := by
    rintro rfl
    exact relative rfl
  have member : b :: first ∈ names (b :: rest) := by
    rw [names, Path.segments_cons, if_neg different, parts, List.modifyHead_cons, List.mem_filter]
    exact ⟨List.mem_cons_self, rfl⟩
  exact List.ne_nil_of_mem member

/-- What the system sees of a path below a directory, if no NUL cuts it off. -/
theorem seen_below {root path : Bytes} (plain : nul ∉ root) (relative : path.head? ≠ some slash) :
    names (Bytes.untilNul (Path.below root path)) = names root ++ names (Bytes.untilNul path) ∧
      isAbsolute (Bytes.untilNul (Path.below root path)) = isAbsolute root := by
  obtain ⟨ending, whole, ends, slashes, head⟩ := Path.below_eq root relative
  have uncut : nul ∉ root ++ ending := by
    rw [List.mem_append, not_or]
    exact ⟨plain, fun member => absurd (slashes nul member) (by decide)⟩
  rw [whole, Bytes.untilNul_plain uncut, names_append ends, names_append_slashes root slashes]
  refine ⟨rfl, ?_⟩
  rw [isAbsolute, isAbsolute, ← head]
  cases stem : root ++ ending with
  | nil =>
    obtain ⟨behind, rest⟩ := Bytes.untilNul_prefix path
    cases seen : Bytes.untilNul path with
    | nil => rfl
    | cons b seen =>
      rw [← rest, seen] at relative
      simpa using relative
  | cons b stem => rfl

/-- What stands behind the text of a directory leads on from there, if no NUL cuts it off. -/
theorem follow_below_plain {disk : Disk} {root path : Bytes} {place : Place}
    (plain : nul ∉ root) (relative : path.head? ≠ some slash)
    (located : disk.locate (Path.below root path) = .ok place) :
    disk.follow (disk.destination root) (names (Bytes.untilNul path)) = .ok place := by
  obtain ⟨seen, absolute⟩ := seen_below plain relative
  have followed := follow_of_locate located
  rw [seen, absolute] at followed
  rw [destination, Bytes.untilNul_eq_self plain]
  exact follow_append_ok followed

/-- A NUL in the text of a directory cuts off all that stands behind. -/
theorem untilNul_below {root path : Bytes} (cut : nul ∈ root) (relative : path.head? ≠ some slash) :
    Bytes.untilNul (Path.below root path) = Bytes.untilNul root := by
  obtain ⟨ending, whole, _⟩ := Path.below_eq root relative
  rw [whole, List.append_assoc, Bytes.untilNul_cut cut]

/-- A path below a directory starts from where the directory does. -/
theorem absolute_below {root path : Bytes} (relative : path.head? ≠ some slash) :
    isAbsolute (Bytes.untilNul (Path.below root path)) = isAbsolute (Bytes.untilNul root) := by
  by_cases cut : nul ∈ root
  · rw [untilNul_below cut relative]
  · rw [(seen_below cut relative).2, Bytes.untilNul_eq_self cut]

/-- A name below a directory leads to the entry of that name, if no NUL cuts it off. -/
theorem destination_below (disk : Disk) {root name : Bytes} (nonempty : name ≠ [])
    (plain : slash ∉ name ∧ nul ∉ name) (proper : name ≠ Path.here ∧ name ≠ Path.up) :
    disk.destination (Path.below root name) = disk.destination root ∨
      disk.destination (Path.below root name) = disk.destination root ++ [name] := by
  have relative : name.head? ≠ some slash := fun absolute =>
    plain.1 (List.mem_of_mem_head? absolute)
  by_cases cut : nul ∈ root
  · left
    rw [destination, destination, untilNul_below cut relative]
  · right
    obtain ⟨seen, absolute⟩ := seen_below cut relative
    rw [destination, destination, seen, absolute, Bytes.untilNul_eq_self cut,
      Bytes.untilNul_eq_self plain.2, names_plain nonempty plain.1, reach_append]
    exact step_proper proper

/-- Where a path below a directory leads: to the directory if a NUL cuts the text off before the
path, and else on from there. -/
theorem follow_below {disk : Disk} {root path : Bytes} {place : Place}
    (relative : path.head? ≠ some slash)
    (located : disk.locate (Path.below root path) = .ok place) :
    disk.destination root = place ∨
      disk.follow (disk.destination root) (names (Bytes.untilNul path)) = .ok place := by
  by_cases cut : nul ∈ root
  · left
    rw [← destination_of_locate located, destination, destination, untilNul_below cut relative]
  · exact .inr (follow_below_plain cut relative located)

/-- The components of a canonical path are its segments. -/
theorem names_canonical {path : Bytes} (canonical : Path.Canonical path) :
    names path = Path.segments path := by
  rw [names, List.filter_eq_self]
  intro name member
  simpa using (canonical.segment_ne member).1

/-- The components that are left of a canonical path at its first NUL: proper names, and a last one
that may have become anything. -/
theorem names_untilNul {path : Bytes} (canonical : Path.Canonical path) :
    ∃ inner last, names (Bytes.untilNul path) = inner ++ last ∧ last.length ≤ 1 ∧
      ∀ name ∈ inner, name ≠ Path.here ∧ name ≠ Path.up := by
  have parts := Path.dropLast_append_lastSegment (Bytes.untilNul path)
  have proper : ∀ name ∈ (Path.segments (Bytes.untilNul path)).dropLast,
      name ≠ [] ∧ name ≠ Path.here ∧ name ≠ Path.up := fun name member =>
    canonical.segment_ne (Path.mem_segments_of_mem_dropLast (Bytes.untilNul_prefix path) member)
  refine ⟨(Path.segments (Bytes.untilNul path)).dropLast,
    [Path.lastSegment (Bytes.untilNul path)].filter (· ≠ []), ?_, List.length_filter_le _ _,
    fun name member => (proper name member).2⟩
  rw [names]
  conv => lhs; rw [← parts]
  rw [List.filter_append, List.filter_eq_self.mpr]
  intro name member
  simpa using (proper name member).1

theorem place?_ok {disk after : Disk} {place : Place} {entry : Entry}
    (placed : disk.place? place entry = .ok after) :
    disk.find? place ≠ some .directory ∧ disk.find? place.dropLast = some .directory := by
  rw [place?] at placed
  by_cases free : disk.find? place = some .directory
  · rw [dif_pos free] at placed
    cases placed
  · rw [dif_neg free] at placed
    by_cases inside : disk.find? place.dropLast = some .directory
    · exact ⟨free, inside⟩
    · rw [dif_neg inside] at placed
      cases placed

theorem write_ok {disk after : Disk} {path content : Bytes}
    (written : disk.write path content = .ok after) :
    ∃ place, disk.locate path = .ok place ∧ disk.place? place (.file content) = .ok after := by
  rw [write] at written
  by_cases wants : wantsDirectory (Bytes.untilNul path) = true
  · rw [if_pos wants] at written
    cases written
  · rw [if_neg wants] at written
    cases located : disk.locate path with
    | error problem =>
      rw [located] at written
      cases written
    | ok place =>
      rw [located] at written
      exact ⟨place, rfl, written⟩

/-- A file written for a canonical path lies below the directory. Where a NUL cuts the path behind
two dots, the system is asked to write a directory, and refuses. -/
theorem write_below {disk after : Disk} {root path content : Bytes}
    (canonical : Path.Canonical path)
    (written : disk.write (Path.below root path) content = .ok after) :
    ∃ place, disk.destination root <+: place ∧
      disk.place? place (.file content) = .ok after := by
  obtain ⟨place, located, placed⟩ := write_ok written
  refine ⟨place, ?_, placed⟩
  rcases follow_below canonical.head?_ne_slash located with rfl | followed
  · exact List.prefix_rfl
  obtain ⟨inner, last, components, short, proper⟩ := names_untilNul canonical
  rw [components] at followed
  have arrived := follow_append_ok followed
  rw [reach_proper _ proper] at arrived
  have above := List.prefix_append (disk.destination root) inner
  cases last with
  | nil =>
    rw [follow] at arrived
    exact Except.ok.inj arrived ▸ above
  | cons name others =>
    obtain rfl : others = [] := by
      rw [List.length_cons] at short
      exact List.length_eq_zero_iff.mp (by omega)
    obtain ⟨directory, _, arrived⟩ := follow_cons_ok arrived
    rw [follow] at arrived
    have arrived := Except.ok.inj arrived
    rw [step] at arrived
    by_cases still : name = Path.here
    · rw [if_pos still] at arrived
      exact arrived ▸ above
    by_cases back : name = Path.up
    · rw [if_neg still, if_pos back] at arrived
      have taken := find?_dropLast directory
      rw [arrived] at taken
      exact absurd taken (place?_ok placed).1
    · rw [if_neg still, if_neg back] at arrived
      exact arrived ▸ above.trans (List.prefix_append _ _)

end Disk

end Unbundle
