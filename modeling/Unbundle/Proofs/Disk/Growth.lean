import Unbundle.Proofs.Disk.Below
import Unbundle.Proofs.Disk.Frame

/-!
Disks that only grow. Main statement: as long as nothing is removed, directories stay directories
and files stay files, so a path leads where it led.
-/

namespace Unbundle.Disk

open Ascii

/-- Whatever stands on the first disk stands on the second and is of the same kind. -/
structure Grown (before after : Disk) : Prop where
  current : after.current = before.current
  directory : ∀ place, before.find? place = some .directory → after.find? place = some .directory
  file : ∀ place, before.file? place ≠ none → after.file? place ≠ none

/-- Where directories stay, names can be followed that could be followed before. -/
theorem follow_mono {disk other : Disk} {place target : Place} {names : List Bytes}
    (stay : ∀ place, disk.find? place = some .directory → other.find? place = some .directory)
    (followed : disk.follow place names = .ok target) : other.follow place names = .ok target := by
  induction names generalizing place with
  | nil => exact followed
  | cons name names ih =>
    obtain ⟨directory, short, rest⟩ := follow_cons_ok followed
    rw [follow_cons (stay place directory) short]
    exact ih rest

/-- Whether the system takes a path at all is the same on all disks. -/
theorem locate_of_follow {disk other : Disk} {path : Bytes} {place target : Place}
    (located : disk.locate path = .ok place)
    (followed : other.follow (if isAbsolute (Bytes.untilNul path) then [] else other.current)
      (names (Bytes.untilNul path)) = .ok target) : other.locate path = .ok target := by
  rw [locate] at located ⊢
  by_cases empty : Bytes.untilNul path = []
  · rw [if_pos empty] at located
    cases located
  by_cases long : maxPathLength < (Bytes.untilNul path).length
  · rw [if_neg empty, if_pos long] at located
    cases located
  · rw [if_neg empty, if_neg long]
    exact followed

namespace Grown

variable {before middle after : Disk}

theorem refl (disk : Disk) : Grown disk disk := ⟨rfl, fun _ stands => stands, fun _ stands => stands⟩

theorem trans (first : Grown before middle) (second : Grown middle after) : Grown before after := by
  refine ⟨second.current.trans first.current, ?_, ?_⟩
  · intro place stands
    exact second.directory place (first.directory place stands)
  · intro place stands
    exact second.file place (first.file place stands)

theorem destination_eq (grown : Grown before after) (path : Bytes) :
    after.destination path = before.destination path := by
  rw [destination, destination, grown.current]

theorem follow_eq (grown : Grown before after) {place target : Place} {names : List Bytes}
    (followed : before.follow place names = .ok target) : after.follow place names = .ok target :=
  follow_mono grown.directory followed

theorem locate_eq (grown : Grown before after) {path : Bytes} {place : Place}
    (located : before.locate path = .ok place) : after.locate path = .ok place := by
  have followed := grown.follow_eq (follow_of_locate located)
  rw [← grown.current] at followed
  exact locate_of_follow located followed

end Grown

theorem file?_eq_some {disk : Disk} {place : Place} {content : Bytes} :
    disk.file? place = some content ↔ disk.find? place = some (.file content) := by
  rw [file?]
  cases found : disk.find? place with
  | none => simp
  | some entry => cases entry <;> simp

theorem file?_ne_none {disk : Disk} {place : Place} :
    disk.file? place ≠ none ↔ ∃ content, disk.find? place = some (.file content) := by
  rw [Option.ne_none_iff_exists']
  constructor <;> rintro ⟨content, found⟩
  · exact ⟨content, file?_eq_some.mp found⟩
  · exact ⟨content, file?_eq_some.mpr found⟩

theorem find?_eq_none {disk : Disk} {place : Place}
    (notDirectory : disk.find? place ≠ some .directory)
    (noFile : disk.file? place = none) : disk.find? place = none := by
  cases found : disk.find? place with
  | none => rfl
  | some entry =>
    cases entry with
    | directory => exact absurd found notDirectory
    | file content =>
      rw [file?_eq_some.mpr found] at noFile
      cases noFile

/-- What stands at a place is told by whether it is a directory, and by the file that it is. -/
theorem find?_congr {disk other : Disk} {place : Place}
    (directory : other.find? place = some .directory ↔ disk.find? place = some .directory)
    (file : other.file? place = disk.file? place) : other.find? place = disk.find? place := by
  by_cases stands : disk.find? place = some .directory
  · rw [stands, directory.mpr stands]
  have apart : other.find? place ≠ some .directory := fun found => stands (directory.mp found)
  cases content : disk.file? place with
  | none => rw [find?_eq_none stands content, find?_eq_none apart (file.trans content)]
  | some text =>
    rw [file?_eq_some.mp content, file?_eq_some.mp (file.trans content)]

/-- Disks that have grown from each other are the same, if their files are. -/
theorem Grown.antisymm {disk other : Disk} (first : Grown disk other) (second : Grown other disk)
    (file : ∀ place, other.file? place = disk.file? place) : other = disk := by
  apply Disk.ext first.current
  intro place
  exact find?_congr ⟨second.directory place, first.directory place⟩ (file place)

/-- A file can always be written over. -/
theorem place?_over {disk : Disk} {place : Place} (stands : disk.file? place ≠ none)
    (content : Bytes) : ∃ after, disk.place? place (.file content) = .ok after := by
  obtain ⟨old, found⟩ := file?_ne_none.mp stands
  have free : ¬disk.find? place = some .directory := by
    rw [found]
    nofun
  have proper : place ≠ [] := by
    rintro rfl
    exact free disk.rooted
  have inside : disk.find? place.dropLast = some .directory := by
    rw [← List.dropLast_concat_getLast proper] at found
    exact find?_of_append found (List.cons_ne_nil _ _)
  rw [place?, dif_neg free, dif_pos inside]
  exact ⟨_, rfl⟩

theorem file?_of_place? {disk after : Disk} {place : Place} {content : Bytes}
    (placed : disk.place? place (.file content) = .ok after) :
    after.file? place = some content := by
  rw [file?, find?_place? placed, if_pos rfl]

private theorem place?_grown {disk after : Disk} {place : Place} {entry : Entry}
    (placed : disk.place? place entry = .ok after)
    (kind : disk.file? place ≠ none → ∃ content, entry = .file content) : Grown disk after := by
  refine ⟨current_of_place? placed, ?_, ?_⟩
  · intro other stands
    rw [find?_place? placed, if_neg]
    · exact stands
    · rintro rfl
      exact (place?_ok placed).1 stands
  · intro other stands
    by_cases same : other = place
    · obtain ⟨content, rfl⟩ := kind (same ▸ stands)
      exact file?_ne_none.mpr ⟨content, by rw [find?_place? placed, if_pos same]⟩
    · have unchanged : after.file? other = disk.file? other := by
        apply file?_congr
        rw [find?_place? placed, if_neg same]
      rwa [unchanged]

theorem makeDirectory_grown {disk after : Disk} {path : Bytes}
    (made : disk.makeDirectory path = .ok after) : Grown disk after := by
  obtain ⟨place, _, ⟨free, placed⟩ | ⟨_, rfl⟩⟩ := makeDirectory_ok made
  · apply place?_grown placed
    intro stands
    obtain ⟨content, stands⟩ := file?_ne_none.mp stands
    rw [free] at stands
    cases stands
  · exact .refl _

theorem makeEach_grown (disk : Disk) (paths : List Bytes) : Grown disk (disk.makeEach paths).2 := by
  induction paths generalizing disk with
  | nil => exact .refl disk
  | cons path paths ih =>
    rw [makeEach]
    cases made : disk.makeDirectory path with
    | error problem => exact .refl disk
    | ok after => exact (makeDirectory_grown made).trans (ih after)

theorem makeDirectories_grown (disk : Disk) (path : Bytes) :
    Grown disk (disk.makeDirectories path).2 := by
  rcases disk.makeDirectories_cases path with same | ⟨paths, _, same⟩
  · rw [same]
    exact .refl disk
  · rw [same]
    exact makeEach_grown disk paths

theorem write_grown {disk after : Disk} {path content : Bytes}
    (written : disk.write path content = .ok after) : Grown disk after := by
  obtain ⟨place, _, placed⟩ := write_ok written
  exact place?_grown placed fun _ => ⟨content, rfl⟩

theorem fileAt?_eq_some {disk : Disk} {path content : Bytes} :
    disk.fileAt? path = some content ↔
      disk.locate path = .ok (disk.destination path) ∧
        disk.file? (disk.destination path) = some content ∧
        wantsDirectory (Bytes.untilNul path) = false := by
  rw [fileAt?, status]
  cases located : disk.locate path with
  | error problem => simp
  | ok place =>
    rw [destination_of_locate located, file?]
    dsimp only
    cases found : disk.find? place with
    | none => simp
    | some entry =>
      cases entry with
      | directory => simp
      | file other =>
        by_cases wants : wantsDirectory (Bytes.untilNul path) = true
        · simp [wants]
        · simp [wants]

/-- A file is found again where nothing was removed and it was not written. -/
theorem Grown.fileAt?_eq {before after : Disk} (grown : Grown before after)
    {path content : Bytes} (stands : before.fileAt? path = some content)
    (kept : after.file? (before.destination path) = before.file? (before.destination path)) :
    after.fileAt? path = some content := by
  obtain ⟨located, found, plain⟩ := fileAt?_eq_some.mp stands
  have still := grown.locate_eq located
  refine fileAt?_eq_some.mpr ?_
  rw [destination_of_locate still, kept]
  exact ⟨still, found, plain⟩

end Unbundle.Disk
