import Unbundle.Proofs.Disk.Alike

namespace Unbundle.Disk

variable {disk : Disk} {place target : Place} {names : List Bytes}

/-- Nothing lies below a file. -/
theorem find?_below_file {content : Bytes} (found : disk.find? place = some (.file content))
    (below : place <+: target) (other : target ≠ place) : disk.find? target = none := by
  obtain ⟨inner, rfl⟩ := below
  cases stands : disk.find? (place ++ inner) with
  | none => rfl
  | some entry =>
    have more : inner ≠ [] := by
      rintro rfl
      exact other (List.append_nil _)
    rw [find?_of_append stands more] at found
    cases found

private theorem find?_discard (disk : Disk) (place target : Place) :
    (disk.discard place).find? target =
      if target = place ∧ disk.find? place ≠ some .directory then none else disk.find? target := by
  rw [discard]
  cases found : disk.find? place with
  | none =>
    by_cases same : target = place
    · rw [if_pos ⟨same, nofun⟩, same, found]
    · rw [if_neg (same ·.1)]
  | some entry =>
    cases entry with
    | directory => rw [if_neg (·.2 rfl)]
    | file content =>
      have proper : place ≠ [] := by
        rintro rfl
        have root : disk.find? [] = some .directory := disk.rooted
        rw [root] at found
        cases found
      dsimp only
      rw [dif_pos proper, find?_remove]
      by_cases same : target = place
      · rw [if_pos (same ▸ List.prefix_rfl), if_pos ⟨same, nofun⟩]
      have left : ¬(target = place ∧ some (Entry.file content) ≠ some .directory) := (same ·.1)
      rw [if_neg left]
      by_cases below : place <+: target
      · rw [if_pos below, find?_below_file found below same]
      · rw [if_neg below]

private theorem current_discard (disk : Disk) (place : Place) :
    (disk.discard place).current = disk.current := by
  rw [discard]
  split
  · split <;> rfl
  · rfl
  · rfl

private theorem directory_discard (disk : Disk) (place target : Place) :
    (disk.discard place).find? target = some .directory ↔
      disk.find? target = some .directory := by
  rw [find?_discard]
  by_cases gone : target = place ∧ disk.find? place ≠ some .directory
  · rw [if_pos gone, gone.1]
    exact ⟨nofun, fun directory => absurd directory gone.2⟩
  · rw [if_neg gone]

private theorem file?_discard (disk : Disk) (place target : Place) :
    (disk.discard place).file? target = if target = place then none else disk.file? target := by
  rw [file?, find?_discard]
  by_cases same : target = place
  · rw [if_pos same, same]
    by_cases directory : disk.find? place = some .directory
    · rw [if_neg (·.2 directory), directory]
    · rw [if_pos ⟨rfl, directory⟩]
  · rw [if_neg (same ·.1), if_neg same, file?]

/-- The disk without some files of a directory. -/
def without (disk : Disk) (place : Place) (names : List Bytes) : Disk :=
  names.foldl (fun disk name => disk.discard (place ++ [name])) disk

theorem without_eq (disk : Disk) (place : Place) (names : List Bytes) :
    (disk.without place names).current = disk.current ∧
      (∀ target, (disk.without place names).find? target = some .directory ↔
        disk.find? target = some .directory) ∧
      ∀ target, (disk.without place names).file? target =
        if ∃ name ∈ names, place ++ [name] = target then none else disk.file? target := by
  induction names generalizing disk with
  | nil => exact ⟨rfl, fun _ => Iff.rfl, fun target => by simp [without]⟩
  | cons name names ih =>
    obtain ⟨current, directory, file⟩ := ih (disk.discard (place ++ [name]))
    refine ⟨current.trans (disk.current_discard _),
      fun target => (directory target).trans (disk.directory_discard _ _), ?_⟩
    intro target
    refine (file target).trans ?_
    rw [file?_discard]
    by_cases later : ∃ name ∈ names, place ++ [name] = target
    · obtain ⟨other, member, led⟩ := later
      rw [if_pos ⟨other, member, led⟩, if_pos ⟨other, List.mem_cons_of_mem _ member, led⟩]
    rw [if_neg later]
    by_cases same : target = place ++ [name]
    · rw [if_pos same, if_pos ⟨name, List.mem_cons_self, same.symm⟩]
    · rw [if_neg same, if_neg]
      rintro ⟨other, member, led⟩
      rcases List.mem_cons.mp member with rfl | member
      · exact same led.symm
      · exact later ⟨other, member, led⟩

/-- Files of a directory that only the first disk may have. -/
def Omitted (place : Place) (names : List Bytes) : Difference := fun target _ content' =>
  content' = none ∧ ∃ name ∈ names, place ++ [name] = target

theorem without_alike (disk : Disk) (place : Place) (names : List Bytes) :
    Alike (Omitted place names) disk (disk.without place names) := by
  obtain ⟨current, directory, file⟩ := disk.without_eq place names
  refine ⟨current, directory, ?_⟩
  intro target
  rw [file]
  by_cases listed : ∃ name ∈ names, place ++ [name] = target
  · rw [if_pos listed]
    exact .inr ⟨rfl, listed⟩
  · rw [if_neg listed]
    exact .inl rfl

theorem kept_of_unlisted (unlisted : ∀ name ∈ names, place ++ [name] ≠ target) :
    Kept (Omitted place names) target := by
  rintro content other ⟨_, name, member, same⟩
  exact absurd same (unlisted name member)

end Unbundle.Disk
