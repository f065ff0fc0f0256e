import Unbundle.Proofs.Output.Storage

/-!
How deep a file can be put. Main statement: a file for which no more than so many directories are
lacking is put, and one for which more are lacking is not, so that it may have to wait until another
file has brought a part of its way.
-/

namespace Unbundle

open Ascii Disk Unbundle.Path

namespace Disk

variable {disk : Disk} {root : Bytes} {home : Place} {outer inner : List Bytes} {name last : Bytes}

private theorem length_lineage (root : Bytes) (outer inner : List Bytes) :
    (lineage root outer inner).length = inner.length := by
  induction inner generalizing outer with
  | nil => rfl
  | cons name inner ih => exact congrArg (· + 1) (ih _)

theorem missing_textAt (opened : disk.locate root = .ok home)
    (way : Way root (outer ++ name :: inner))
    (directory : disk.find? (home ++ outer) = some .directory)
    (free : disk.find? (home ++ outer ++ [name]) = none) :
    disk.missing (textAt root (outer ++ name :: inner)) =
      .ok (lineage root outer (name :: inner)) := by
  have step {front : List Bytes} {name : Bytes} (way : Way root (front ++ [name])) :
      Further (textAt root (front ++ [name])) ∧
        parent (textAt root (front ++ [name])) = textAt root front ∧
        own (textAt root (front ++ [name])) = [textAt root (front ++ [name])] := by
    have proper := way.fileNames.names
    have up := parent_textAt root proper
    refine ⟨⟨by rw [up]; exact shorter_textAt proper, ?_⟩, up, ?_⟩
    · rw [up]
      exact textAt_ne_nil (root_ne_nil opened) proper.of_append.1
    · rw [own, lastSegment_textAt proper, if_neg]
      exact not_or.mpr (way.fileNames name (List.mem_append_right _ (.head _))).proper
  induction inner using List.reverseRec with
  | nil =>
    obtain ⟨further, up, alone⟩ := step way
    rw [missing, dif_pos further, up, status_of_directory opened way.outer directory, alone]
    rfl
  | append_singleton inner last ih =>
    rw [← List.cons_append, ← List.append_assoc] at way ⊢
    obtain ⟨further, up, alone⟩ := step way
    rw [missing, dif_pos further, up, status_of_missing opened way.outer directory free, alone]
    dsimp only
    rw [if_pos (by decide), ih way.outer, lineage_concat, List.append_assoc outer]
    rfl

theorem makeDirectories_lacking (opened : disk.locate root = .ok home)
    (way : Way root (outer ++ name :: inner))
    (directory : disk.find? (home ++ outer) = some .directory)
    (free : disk.find? (home ++ outer ++ [name]) = none) :
    (inner.length < maxDepth ∧
      ∃ after, disk.makeDirectories (textAt root (outer ++ name :: inner)) = (none, after) ∧
        Opened disk (home ++ (outer ++ name :: inner)) after) ∨
    (maxDepth ≤ inner.length ∧
      ∃ problem,
        disk.makeDirectories (textAt root (outer ++ name :: inner)) = (some problem, disk)) := by
  have proper := way.fileNames.names
  have lacking := missing_textAt opened way directory free
  have length := length_lineage root outer (name :: inner)
  rw [List.length_cons] at length
  rw [makeDirectories, if_neg (textAt_ne_nil (root_ne_nil opened) proper),
    status_of_missing opened way directory free]
  dsimp only
  rw [if_pos (by decide),
    withoutSlash_textAt proper (List.append_ne_nil_of_right_ne_nil _ (List.cons_ne_nil _ _))]
  cases found : disk.missingDirectories [] (ancestors (textAt root (outer ++ name :: inner))) with
  | ok paths =>
    obtain ⟨lacking', walked, rfl, few⟩ := missingDirectories_ancestors.mp found
    rw [lacking] at walked
    cases walked
    rw [List.append_nil] at few ⊢
    exact .inl ⟨by omega, makeEach_lineage opened way directory free⟩
  | error problem =>
    refine .inr ⟨Nat.le_of_not_lt fun few => ?_, problem, rfl⟩
    have finds := (@missingDirectories_ancestors disk [] _ _).mpr
      ⟨_, lacking, (List.append_nil _).symm, by omega⟩
    rw [found] at finds
    cases finds

end Disk

namespace Output

variable {disk : Disk} {root : Bytes} {home : Place} {outer inner : List Bytes} {name last : Bytes}

/-- A file for which directories are lacking is put just if they are not too many. -/
theorem put_lacking_iff (opened : disk.locate root = .ok home)
    (way : Way root (outer ++ name :: inner ++ [last]))
    (directory : disk.find? (home ++ outer) = some .directory)
    (free : disk.find? (home ++ outer ++ [name]) = none) (content : Bytes) :
    (∃ after, put disk (textAt root (outer ++ name :: inner ++ [last])) content = (.ok (), after)) ↔
      inner.length < maxDepth := by
  rw [put, makeParent, parent_textAt root way.fileNames.names,
    if_neg (textAt_ne_nil (root_ne_nil opened) way.outer.fileNames.names)]
  rcases makeDirectories_lacking opened way.outer directory free with
    ⟨few, middle, made, changed⟩ | ⟨many, problem, made⟩
  · refine iff_of_true ?_ few
    have vacant : middle.find? (home ++ (outer ++ name :: inner ++ [last])) ≠ some .directory := by
      rw [← List.append_assoc home]
      intro stands
      rcases (changed.directory _).mp stands with stood | passed
      · have above : home ++ outer ++ [name] <+: home ++ (outer ++ name :: inner) ++ [last] := by
          simp
        rw [find?_of_directory above stood] at free
        cases free
      · have := passed.length_le
        rw [List.length_append, List.length_singleton] at this
        omega
    obtain ⟨after, written, _⟩ := write_textAt (changed.grown.locate_eq opened) way
      changed.target_directory vacant content
    rw [made]
    dsimp only
    rw [written]
    exact ⟨after, rfl⟩
  · refine iff_of_false ?_ (Nat.not_lt.mpr many)
    rintro ⟨after, done⟩
    rw [made] at done
    cases done

end Output

end Unbundle
