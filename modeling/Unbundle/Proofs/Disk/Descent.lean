import Unbundle.Proofs.Disk.Below
import Unbundle.Proofs.Path.Parent
import Mathlib.Data.List.Induction

namespace Unbundle.Disk

open Ascii Unbundle.Path

/-- A name that the system takes for an entry of a directory. -/
structure FileName (name : Bytes) : Prop where
  nonempty : name ≠ []
  plain : slash ∉ name
  proper : name ≠ here ∧ name ≠ up
  short : name.length ≤ maxNameLength

instance (name : Bytes) : Decidable (FileName name) :=
  decidable_of_iff (name ≠ [] ∧ slash ∉ name ∧ (name ≠ here ∧ name ≠ up) ∧
      name.length ≤ maxNameLength)
    ⟨fun ⟨nonempty, plain, proper, short⟩ => ⟨nonempty, plain, proper, short⟩,
      fun fileName => ⟨fileName.nonempty, fileName.plain, fileName.proper, fileName.short⟩⟩

def FileNames (inner : List Bytes) : Prop := ∀ name ∈ inner, FileName name

namespace FileNames

variable {inner outer : List Bytes} {name : Bytes}

theorem names (fileNames : FileNames inner) : Path.Names inner := by
  intro name member
  exact ⟨(fileNames name member).nonempty, (fileNames name member).plain⟩

theorem cons (fileNames : FileNames (name :: inner)) : FileName name ∧ FileNames inner :=
  List.forall_mem_cons.mp fileNames

theorem of_append (fileNames : FileNames (outer ++ inner)) : FileNames outer ∧ FileNames inner :=
  List.forall_mem_append.mp fileNames

end FileNames

/-- The text of a way names what its directory names, and then the names of the way. -/
theorem names_textAt (root : Bytes) {inner : List Bytes} (proper : Path.Names inner) :
    Disk.names (textAt root inner) = Disk.names root ++ inner := by
  induction inner using List.reverseRec with
  | nil =>
    obtain ⟨ending, whole, slashes⟩ := trimmed_eq root
    have same := names_append_slashes (trimmed root) slashes
    rw [← whole] at same
    rw [List.append_nil, same]
    rfl
  | append_singleton outer name ih =>
    obtain ⟨ending, whole, ends, slashes⟩ := textAt_concat root proper
    obtain ⟨above, others⟩ := proper.of_append
    obtain ⟨nonempty, plain⟩ := others name (List.mem_singleton_self _)
    rw [whole, names_append ends, names_append_slashes _ slashes, ih above,
      names_plain nonempty plain, List.append_assoc]

theorem textAt_front (root : Bytes) {outer inner : List Bytes}
    (proper : Path.Names (outer ++ inner)) : textAt root outer <+: textAt root (outer ++ inner) := by
  induction inner using List.reverseRec with
  | nil => simp
  | append_singleton inner name ih =>
    rw [← List.append_assoc] at proper ⊢
    obtain ⟨ending, whole, _, _⟩ := textAt_concat root proper
    rw [whole, List.append_assoc (textAt root _)]
    exact (ih proper.of_append.1).trans (List.prefix_append _ _)

theorem isAbsolute_textAt {root : Bytes} (nonempty : root ≠ []) {inner : List Bytes}
    (proper : Path.Names inner) : isAbsolute (textAt root inner) = isAbsolute root := by
  have start := @textAt_front root [] inner proper
  obtain ⟨behind, whole⟩ := start
  obtain ⟨ending, split, slashes⟩ := trimmed_eq root
  obtain ⟨b, rest, first⟩ := List.exists_cons_of_ne_nil (trimmed_ne_nil nonempty)
  rw [List.nil_append] at whole
  rw [isAbsolute, isAbsolute, ← whole, textAt, first, split, first]
  rfl

/-- Names whose way down from a root has a text that the system takes. -/
structure Way (root : Bytes) (inner : List Bytes) : Prop where
  fileNames : FileNames inner
  stem : nul ∉ root
  plain : nul ∉ textAt root inner
  short : (textAt root inner).length ≤ maxPathLength

theorem Way.outer {root : Bytes} {outer inner : List Bytes} (way : Way root (outer ++ inner)) :
    Way root outer := by
  have front := textAt_front root way.fileNames.names
  exact ⟨way.fileNames.of_append.1, way.stem, fun member => way.plain (front.subset member),
    front.length_le.trans way.short⟩

variable {disk : Disk} {root : Bytes} {home place : Place} {inner outer : List Bytes} {name : Bytes}

private theorem follow_step (fileName : FileName name)
    (directory : disk.find? place = some .directory)
    (names : List Bytes) : disk.follow place (name :: names) = disk.follow (place ++ [name]) names := by
  rw [follow_cons directory fileName.short, step_proper fileName.proper]

theorem follow_append {first : List Bytes} {middle : Place}
    (followed : disk.follow place first = .ok middle) (second : List Bytes) :
    disk.follow place (first ++ second) = disk.follow middle second := by
  induction first generalizing place with
  | nil =>
    rw [follow] at followed
    rw [List.nil_append, Except.ok.inj followed]
  | cons name first ih =>
    obtain ⟨directory, short, rest⟩ := follow_cons_ok followed
    rw [List.cons_append, follow_cons directory short]
    exact ih rest

/-- Names that end at a directory lead there. -/
theorem follow_directory (fileNames : FileNames inner)
    (directory : disk.find? (place ++ inner) = some .directory) :
    disk.follow place inner = .ok (place ++ inner) := by
  induction inner generalizing place with
  | nil => rw [follow, List.append_nil]
  | cons name inner ih =>
    obtain ⟨first, others⟩ := fileNames.cons
    have here := find?_of_append directory (List.cons_ne_nil _ _)
    rw [List.append_cons] at directory ⊢
    rw [follow_step first here]
    exact ih others directory

/-- One name behind a directory can be followed, whether or not anything is there. -/
theorem follow_concat (fileNames : FileNames (outer ++ [name]))
    (directory : disk.find? (place ++ outer) = some .directory) :
    disk.follow place (outer ++ [name]) = .ok (place ++ outer ++ [name]) := by
  obtain ⟨above, last⟩ := fileNames.of_append
  rw [follow_append (follow_directory above directory),
    follow_step (last name (List.mem_singleton_self _)) directory]
  rfl

private theorem follow_missing (fileNames : FileNames (outer ++ name :: inner))
    (directory : disk.find? (place ++ outer) = some .directory)
    (free : disk.find? (place ++ outer ++ [name]) = none) (more : inner ≠ []) :
    disk.follow place (outer ++ name :: inner) = .error .missing := by
  obtain ⟨above, others⟩ := fileNames.of_append
  obtain ⟨second, inner, rfl⟩ := List.exists_cons_of_ne_nil more
  rw [follow_append (follow_directory above directory),
    follow_step others.cons.1 directory, follow, free]

theorem root_ne_nil (opened : disk.locate root = .ok home) : root ≠ [] := by
  rintro rfl
  cases opened

theorem textAt_ne_nil (nonempty : root ≠ []) (proper : Path.Names inner) :
    textAt root inner ≠ [] := by
  intro empty
  have start := @textAt_front root [] inner proper
  rw [List.nil_append, empty] at start
  exact trimmed_ne_nil nonempty (List.prefix_nil.mp start)

/-- The text of a way leads where its names lead from the root. -/
theorem locate_textAt (opened : disk.locate root = .ok home) (way : Way root inner) :
    disk.locate (textAt root inner) = disk.follow home inner := by
  have nonempty := root_ne_nil opened
  have followed := follow_of_locate opened
  have text := textAt_ne_nil nonempty way.fileNames.names
  rw [Bytes.untilNul_eq_self way.stem] at followed
  rw [locate, Bytes.untilNul_eq_self way.plain, if_neg text, if_neg (Nat.not_lt.mpr way.short),
    isAbsolute_textAt nonempty way.fileNames.names, names_textAt root way.fileNames.names]
  exact follow_append followed inner

theorem status_of_directory (opened : disk.locate root = .ok home) (way : Way root inner)
    (directory : disk.find? (home ++ inner) = some .directory) :
    disk.status (textAt root inner) = .ok .directory := by
  rw [status, locate_textAt opened way, follow_directory way.fileNames directory]
  dsimp only
  rw [directory]

theorem status_of_missing (opened : disk.locate root = .ok home)
    (way : Way root (outer ++ name :: inner))
    (directory : disk.find? (home ++ outer) = some .directory)
    (free : disk.find? (home ++ outer ++ [name]) = none) :
    disk.status (textAt root (outer ++ name :: inner)) = .error .missing := by
  rw [status, locate_textAt opened way]
  cases inner with
  | nil =>
    rw [follow_concat way.fileNames directory]
    dsimp only
    rw [free]
  | cons second inner => rw [follow_missing way.fileNames directory free (List.cons_ne_nil _ _)]

end Unbundle.Disk
