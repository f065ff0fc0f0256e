import Unbundle.Proofs.Disk.Ancestors

namespace Unbundle.Disk

open Ascii Unbundle.Path

/-- The disk with directories on the whole way to a place. -/
structure Opened (before : Disk) (target : Place) (after : Disk) : Prop where
  same : SameOutside (fun _ => False) before after
  directory : ∀ place,
    after.find? place = some .directory ↔
      before.find? place = some .directory ∨ place <+: target

/-- What lies properly above a place lies above its directory. -/
theorem above_concat_iff {place target : Place} {name : Bytes} :
    place <+: target ++ [name] ∧ place ≠ target ++ [name] ↔ place <+: target := by
  constructor
  · rintro ⟨above, different⟩
    exact (List.prefix_concat_iff.mp above).resolve_left different
  · intro above
    have short := above.length_le
    refine ⟨above.trans (List.prefix_append _ _), ?_⟩
    rintro rfl
    rw [List.length_append, List.length_singleton] at short
    omega

namespace Opened

variable {before middle after : Disk} {target : Place} {name : Bytes}

theorem refl (directory : before.find? target = some .directory) :
    Opened before target before := by
  refine ⟨.refl _ before, ?_⟩
  intro place
  constructor
  · exact .inl
  · rintro (stands | above)
    · exact stands
    · exact find?_of_directory above directory

theorem file?_eq (opened : Opened before target after) (place : Place) :
    after.file? place = before.file? place :=
  opened.same.2 place id

theorem target_directory (opened : Opened before target after) :
    after.find? target = some .directory :=
  (opened.directory target).mpr (.inr List.prefix_rfl)

theorem trans {further : Place} (first : Opened before target middle)
    (second : Opened middle further after) (above : target <+: further) :
    Opened before further after := by
  refine ⟨first.same.trans second.same, ?_⟩
  intro place
  rw [second.directory, first.directory]
  constructor
  · rintro ((stands | passed) | passed)
    · exact .inl stands
    · exact .inr (passed.trans above)
    · exact .inr passed
  · rintro (stands | passed)
    · exact .inl (.inl stands)
    · exact .inr passed

/-- Nothing stands below a new directory. -/
theorem free_below (opened : Opened before target after) (free : before.find? target = none)
    (name : Bytes) : after.find? (target ++ [name]) = none := by
  have absent (entry : Entry) : before.find? (target ++ [name]) ≠ some entry := by
    intro found
    rw [find?_of_append found (List.cons_ne_nil _ _)] at free
    cases free
  cases found : after.find? (target ++ [name]) with
  | none => rfl
  | some entry =>
    cases entry with
    | file content =>
      have stood := opened.file?_eq (target ++ [name])
      rw [file?_eq_some.mpr found] at stood
      exact absurd (file?_eq_some.mp stood.symm) (absent _)
    | directory =>
      rcases (opened.directory _).mp found with stands | above
      · exact absurd stands (absent _)
      · have short := above.length_le
        rw [List.length_append, List.length_singleton] at short
        omega

theorem grown (opened : Opened before target after) : Grown before after := by
  refine ⟨opened.same.1, ?_, ?_⟩
  · intro place stands
    exact (opened.directory place).mpr (.inl stands)
  · intro place stands
    rwa [opened.file?_eq]

end Opened

variable {disk : Disk} {root : Bytes} {home : Place} {outer inner : List Bytes} {name : Bytes}

/-- The texts of the places that are passed on a way down, behind those of an outer way. -/
def lineage (root : Bytes) (outer : List Bytes) : List Bytes → List Bytes
  | [] => []
  | name :: inner => textAt root (outer ++ [name]) :: lineage root (outer ++ [name]) inner

theorem lineage_concat (root : Bytes) (outer inner : List Bytes) (name : Bytes) :
    lineage root outer (inner ++ [name]) =
      lineage root outer inner ++ [textAt root (outer ++ inner ++ [name])] := by
  induction inner generalizing outer with
  | nil => rw [List.append_nil]; rfl
  | cons first inner ih =>
    rw [List.cons_append, lineage, ih, lineage, List.append_assoc outer [first],
      List.singleton_append, List.cons_append]

theorem shorter_textAt (proper : Path.Names (inner ++ [name])) :
    (textAt root inner).length < (textAt root (inner ++ [name])).length := by
  obtain ⟨ending, whole, _, _⟩ := textAt_concat root proper
  obtain ⟨nonempty, _⟩ := proper name (List.mem_append_right _ (List.mem_singleton_self _))
  have positive := List.length_pos_iff.mpr nonempty
  rw [whole, List.length_append, List.length_append]
  omega

private theorem ancestors_textAt (proper : Path.Names (inner ++ [name])) :
    ancestors (textAt root (inner ++ [name])) =
      textAt root (inner ++ [name]) :: ancestors (textAt root inner) := by
  rw [ancestors, parent_textAt root proper, dif_pos (shorter_textAt proper)]

theorem lastSegment_textAt (proper : Path.Names (inner ++ [name])) :
    lastSegment (textAt root (inner ++ [name])) = name := by
  obtain ⟨ending, whole, ends, _⟩ := textAt_concat root proper
  obtain ⟨_, plain⟩ := proper name (List.mem_append_right _ (List.mem_singleton_self _))
  rw [whole, lastSegment_append_plain _ plain, ends, List.nil_append]

theorem missingDirectories_textAt (opened : disk.locate root = .ok home)
    (fileNames : FileNames (inner ++ [name])) {made : List Bytes} (depth : made.length < maxDepth) :
    disk.missingDirectories made (ancestors (textAt root (inner ++ [name]))) =
      match disk.status (textAt root inner) with
      | .ok .directory => .ok (textAt root (inner ++ [name]) :: made)
      | .ok (.file _) => .error .notDirectory
      | .error problem =>
        if problem.isAbsence then
          disk.missingDirectories (textAt root (inner ++ [name]) :: made)
            (ancestors (textAt root inner))
        else .error problem := by
  have last := fileNames name (List.mem_append_right _ (List.mem_singleton_self _))
  have nonempty := textAt_ne_nil (root_ne_nil opened) fileNames.of_append.1.names
  have proper : ¬(name = here ∨ name = up) := not_or.mpr last.proper
  obtain ⟨others, next⟩ := ancestors_cons (textAt root inner)
  have unfolded := missingDirectories.eq_def disk made
    (textAt root (inner ++ [name]) :: textAt root inner :: others)
  dsimp only at unfolded
  rw [lastSegment_textAt fileNames.names, if_neg proper, List.length_cons,
    if_neg (Nat.not_lt.mpr depth), if_neg nonempty] at unfolded
  rw [ancestors_textAt fileNames.names, next]
  exact unfolded

theorem missingDirectories_eq (opened : disk.locate root = .ok home)
    (way : Way root (outer ++ name :: inner))
    (directory : disk.find? (home ++ outer) = some .directory)
    (free : disk.find? (home ++ outer ++ [name]) = none) {made : List Bytes}
    (depth : inner.length + made.length < maxDepth) :
    disk.missingDirectories made (ancestors (textAt root (outer ++ name :: inner))) =
      .ok (lineage root outer (name :: inner) ++ made) := by
  induction inner using List.reverseRec generalizing made with
  | nil =>
    have above := way.outer
    rw [missingDirectories_textAt opened way.fileNames (by simpa using depth),
      status_of_directory opened above directory]
    rfl
  | append_singleton inner last ih =>
    rw [← List.cons_append, ← List.append_assoc] at way ⊢
    rw [List.length_append, List.length_singleton] at depth
    rw [missingDirectories_textAt opened way.fileNames (by omega),
      status_of_missing opened way.outer directory free]
    dsimp only
    rw [if_pos (by decide), ih way.outer (by rw [List.length_cons]; omega), lineage_concat,
      List.append_assoc (lineage root outer (name :: inner)), List.singleton_append]

private theorem makeDirectory_textAt (opened : disk.locate root = .ok home)
    (way : Way root (outer ++ [name])) (directory : disk.find? (home ++ outer) = some .directory)
    (free : disk.find? (home ++ outer ++ [name]) = none) :
    ∃ after, disk.makeDirectory (textAt root (outer ++ [name])) = .ok after ∧
      Opened disk (home ++ outer ++ [name]) after := by
  have notThere : disk.find? (home ++ outer ++ [name]) ≠ some .directory := by
    rw [free]
    exact nofun
  obtain ⟨after, placed⟩ : ∃ after,
      disk.place? (home ++ outer ++ [name]) .directory = .ok after := by
    rw [place?, dif_neg notThere, dif_pos (by rwa [List.dropLast_concat])]
    exact ⟨_, rfl⟩
  have made : disk.makeDirectory (textAt root (outer ++ [name])) = .ok after := by
    rw [makeDirectory, locate_textAt opened way, follow_concat way.fileNames directory]
    dsimp only
    rw [free]
    exact placed
  refine ⟨after, made, makeDirectory_sameOutside made, ?_⟩
  intro place
  rw [find?_place? placed]
  by_cases same : place = home ++ outer ++ [name]
  · rw [if_pos same, same]
    simp
  · rw [if_neg same]
    constructor
    · exact .inl
    · rintro (stands | above)
      · exact stands
      · exact find?_of_directory (above_concat_iff.mp ⟨above, same⟩) directory

theorem makeEach_lineage (opened : disk.locate root = .ok home)
    (way : Way root (outer ++ name :: inner))
    (directory : disk.find? (home ++ outer) = some .directory)
    (free : disk.find? (home ++ outer ++ [name]) = none) :
    ∃ after, disk.makeEach (lineage root outer (name :: inner)) = (none, after) ∧
      Opened disk (home ++ (outer ++ name :: inner)) after := by
  induction inner generalizing disk outer name with
  | nil =>
    obtain ⟨after, made, changed⟩ := makeDirectory_textAt opened way directory free
    refine ⟨after, ?_, by rwa [← List.append_assoc]⟩
    rw [lineage, lineage, makeEach, made]
    rfl
  | cons second inner ih =>
    rw [List.append_cons] at way
    obtain ⟨middle, made, first⟩ := makeDirectory_textAt opened way.outer directory free
    have passed := first.target_directory
    have below := first.free_below free second
    rw [List.append_assoc home] at first passed below
    obtain ⟨after, others, rest⟩ := ih (first.grown.locate_eq opened) way passed below
    refine ⟨after, ?_, ?_⟩
    · rw [lineage, makeEach, made]
      exact others
    · rw [List.append_cons]
      apply first.trans rest
      exact (List.prefix_append_right_inj home).mpr (List.prefix_append _ _)

theorem exists_last_directory (directory : disk.find? home = some .directory)
    (missing : disk.find? (home ++ inner) ≠ some .directory)
    (free : ∀ outer, outer <+: inner → disk.file? (home ++ outer) = none) :
    ∃ outer name rest, inner = outer ++ name :: rest ∧
      disk.find? (home ++ outer) = some .directory ∧
      disk.find? (home ++ outer ++ [name]) = none := by
  induction inner using List.reverseRec with
  | nil =>
    rw [List.append_nil] at missing
    exact absurd directory missing
  | append_singleton inner name ih =>
    by_cases there : disk.find? (home ++ inner) = some .directory
    · refine ⟨inner, name, [], rfl, there, ?_⟩
      have noFile := free (inner ++ [name]) List.prefix_rfl
      rw [← List.append_assoc] at missing noFile
      cases found : disk.find? (home ++ inner ++ [name]) with
      | none => rfl
      | some entry =>
        cases entry with
        | directory => exact absurd found missing
        | file content =>
          rw [file?_eq_some.mpr found] at noFile
          cases noFile
    · obtain ⟨outer, first, rest, rfl, stands, absent⟩ := ih there fun outer above =>
        free outer (above.trans (List.prefix_append _ _))
      refine ⟨outer, first, rest ++ [name], ?_, stands, absent⟩
      rw [List.append_assoc, List.cons_append]

theorem withoutSlash_textAt (proper : Path.Names inner) (nonempty : inner ≠ []) :
    withoutSlash (textAt root inner) = textAt root inner := by
  obtain ⟨outer, name, rfl⟩ := (List.eq_nil_or_concat' inner).resolve_left nonempty
  have last := proper name (List.mem_append_right _ (List.mem_singleton_self _))
  rw [withoutSlash, if_neg]
  rw [lastSegment_textAt proper]
  exact fun ends => last.1 ends.1

theorem makeDirectories_textAt (opened : disk.locate root = .ok home)
    (directory : disk.find? home = some .directory) (way : Way root inner)
    (depth : inner.length ≤ maxDepth)
    (free : ∀ outer, outer <+: inner → disk.file? (home ++ outer) = none) :
    ∃ after, disk.makeDirectories (textAt root inner) = (none, after) ∧
      Opened disk (home ++ inner) after := by
  have nonempty := textAt_ne_nil (root_ne_nil opened) way.fileNames.names
  rw [makeDirectories, if_neg nonempty]
  by_cases there : disk.find? (home ++ inner) = some .directory
  · rw [status_of_directory opened way there]
    exact ⟨disk, rfl, .refl there⟩
  · obtain ⟨outer, name, rest, rfl, stands, absent⟩ := exists_last_directory directory there free
    rw [status_of_missing opened way stands absent]
    dsimp only
    have short : rest.length + ([] : List Bytes).length < maxDepth := by
      rw [List.length_append, List.length_cons] at depth
      rw [List.length_nil]
      omega
    rw [if_pos (by decide), withoutSlash_textAt way.fileNames.names (by simp),
      missingDirectories_eq opened way stands absent short, List.append_nil]
    exact makeEach_lineage opened way stands absent

end Unbundle.Disk
