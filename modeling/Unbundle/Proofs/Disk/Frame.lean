import Unbundle.Proofs.Disk.Reach

namespace Unbundle.Disk

/-- All files outside a region stay as they are, and so does the working directory. -/
def SameOutside (region : Place → Prop) (before after : Disk) : Prop :=
  after.current = before.current ∧
    ∀ place, ¬region place → after.file? place = before.file? place

namespace SameOutside

variable {region wider : Place → Prop} {before middle after : Disk}

theorem refl (region : Place → Prop) (disk : Disk) : SameOutside region disk disk :=
  ⟨rfl, fun _ _ => rfl⟩

theorem trans (first : SameOutside region before middle)
    (second : SameOutside region middle after) : SameOutside region before after :=
  ⟨second.1.trans first.1, fun place outside =>
    (second.2 place outside).trans (first.2 place outside)⟩

theorem mono (same : SameOutside region before after)
    (included : ∀ place, region place → wider place) : SameOutside wider before after :=
  ⟨same.1, fun place outside => same.2 place fun inside => outside (included place inside)⟩

/-- Where nothing may change, anything else may not either. -/
theorem of_none (same : SameOutside (fun _ => False) before after) :
    SameOutside region before after :=
  same.mono fun _ impossible => impossible.elim

/-- A path leads to the same place before and after. -/
theorem destination_eq (same : SameOutside region before after) (path : Bytes) :
    after.destination path = before.destination path := by
  rw [destination, destination, same.1]

end SameOutside

theorem file?_congr {disk other : Disk} {place : Place}
    (same : disk.find? place = other.find? place) : disk.file? place = other.file? place := by
  rw [file?, file?, same]

theorem current_of_place? {disk after : Disk} {place : Place} {entry : Entry}
    (placed : disk.place? place entry = .ok after) : after.current = disk.current := by
  rw [place?] at placed
  by_cases free : disk.find? place = some .directory
  · rw [dif_pos free] at placed
    cases placed
  · rw [dif_neg free] at placed
    by_cases inside : disk.find? place.dropLast = some .directory
    · rw [dif_pos inside] at placed
      cases placed
      rfl
    · rw [dif_neg inside] at placed
      cases placed

theorem place?_sameOutside {disk after : Disk} {place : Place} {entry : Entry}
    (placed : disk.place? place entry = .ok after) : SameOutside (· = place) disk after := by
  refine ⟨current_of_place? placed, ?_⟩
  intro other different
  apply file?_congr
  rw [find?_place? placed, if_neg different]

/-- A directory is made where nothing stands, and left where one stands. -/
theorem makeDirectory_ok {disk after : Disk} {path : Bytes}
    (made : disk.makeDirectory path = .ok after) :
    ∃ place, disk.locate path = .ok place ∧
      (disk.find? place = none ∧ disk.place? place .directory = .ok after ∨
        disk.find? place = some .directory ∧ after = disk) := by
  rw [makeDirectory] at made
  cases located : disk.locate path with
  | error problem =>
    rw [located] at made
    cases made
  | ok place =>
    rw [located] at made
    dsimp only at made
    refine ⟨place, rfl, ?_⟩
    cases found : disk.find? place with
    | none =>
      rw [found] at made
      exact .inl ⟨rfl, made⟩
    | some entry =>
      rw [found] at made
      cases entry with
      | directory =>
        cases made
        exact .inr ⟨rfl, rfl⟩
      | file content => cases made

/-- Making directories makes some of those that were found missing, or changes nothing. -/
theorem makeDirectories_cases (disk : Disk) (path : Bytes) :
    (disk.makeDirectories path).2 = disk ∨
      ∃ paths, disk.missingDirectories [] (ancestors (withoutSlash path)) = .ok paths ∧
        disk.makeDirectories path = disk.makeEach paths := by
  rw [makeDirectories]
  by_cases empty : path = []
  · rw [if_pos empty]
    exact .inl rfl
  rw [if_neg empty]
  cases disk.status path with
  | ok entry => cases entry <;> exact .inl rfl
  | error problem =>
    dsimp only
    by_cases absent : problem.isAbsence = true
    · rw [if_pos absent]
      cases disk.missingDirectories [] (ancestors (withoutSlash path)) with
      | error problem => exact .inl rfl
      | ok paths => exact .inr ⟨paths, rfl, rfl⟩
    · rw [if_neg absent]
      exact .inl rfl

theorem makeDirectory_sameOutside {disk after : Disk} {path : Bytes}
    (made : disk.makeDirectory path = .ok after) : SameOutside (fun _ => False) disk after := by
  obtain ⟨place, _, ⟨free, placed⟩ | ⟨_, rfl⟩⟩ := makeDirectory_ok made
  · refine ⟨current_of_place? placed, ?_⟩
    intro other _
    by_cases same : other = place
    · rw [file?, file?, find?_place? placed, if_pos same, same, free]
    · apply file?_congr
      rw [find?_place? placed, if_neg same]
  · exact .refl _ _

private theorem makeEach_sameOutside (disk : Disk) (paths : List Bytes) :
    SameOutside (fun _ => False) disk (disk.makeEach paths).2 := by
  induction paths generalizing disk with
  | nil => exact .refl _ disk
  | cons path paths ih =>
    rw [makeEach]
    cases made : disk.makeDirectory path with
    | error problem => exact .refl _ disk
    | ok after => exact (makeDirectory_sameOutside made).trans (ih after)

theorem makeDirectories_sameOutside (disk : Disk) (path : Bytes) :
    SameOutside (fun _ => False) disk (disk.makeDirectories path).2 := by
  rcases disk.makeDirectories_cases path with same | ⟨paths, _, same⟩
  · rw [same]
    exact .refl _ disk
  · rw [same]
    exact makeEach_sameOutside disk paths

/-- All that stands outside a region stays as it is, and so does the working directory. -/
def Intact (region : Place → Prop) (before after : Disk) : Prop :=
  after.current = before.current ∧
    ∀ place, ¬region place → after.find? place = before.find? place

namespace Intact

variable {region : Place → Prop} {before middle after : Disk}

theorem refl (region : Place → Prop) (disk : Disk) : Intact region disk disk :=
  ⟨rfl, fun _ _ => rfl⟩

theorem trans (first : Intact region before middle) (second : Intact region middle after) :
    Intact region before after :=
  ⟨second.1.trans first.1, fun place outside =>
    (second.2 place outside).trans (first.2 place outside)⟩

theorem sameOutside (intact : Intact region before after) : SameOutside region before after :=
  ⟨intact.1, fun place outside => file?_congr (intact.2 place outside)⟩

end Intact

private theorem remove_intact (disk : Disk) {place : Place} (proper : place ≠ []) :
    Intact (place <+: ·) disk (disk.remove place proper) := by
  refine ⟨rfl, ?_⟩
  intro other outside
  rw [find?_remove, if_neg outside]

theorem clear_intact (disk : Disk) (place : Place) :
    Intact (place <+: ·) disk (disk.clear place) := by
  refine ⟨rfl, ?_⟩
  intro other outside
  rw [find?_clear, if_neg fun inside => outside inside.2]

private theorem removeOnly_intact (disk : Disk) (path : Bytes) :
    Intact (disk.destination path <+: ·) disk (disk.removeOnly path).2 := by
  rw [removeOnly]
  cases located : disk.locate path with
  | error problem => cases problem <;> exact .refl _ disk
  | ok place =>
    rw [destination_of_locate located]
    dsimp only
    cases disk.find? place with
    | none => exact .refl _ disk
    | some entry =>
      dsimp only
      cases (names (Bytes.untilNul path)).getLast? with
      | none => exact .refl _ disk
      | some name =>
        dsimp only
        by_cases still : name = Path.here
        · rw [if_pos still]
          exact .refl _ disk
        by_cases back : name = Path.up
        · rw [if_neg still, if_pos back]
          exact .refl _ disk
        rw [if_neg still, if_neg back]
        by_cases proper : place ≠ []
        · rw [dif_pos proper]
          exact remove_intact disk proper
        · rw [dif_neg proper]
          exact .refl _ disk

theorem removeAll_intact (disk : Disk) (path : Bytes) :
    Intact (disk.destination path <+: ·) disk (disk.removeAll path).2 := by
  rw [removeAll]
  cases disk.status path with
  | error problem => cases problem <;> exact .refl _ disk
  | ok entry =>
    cases entry with
    | file content => exact removeOnly_intact disk path
    | directory =>
      cases located : disk.locate path with
      | error problem => exact .refl _ disk
      | ok place =>
        have cleared := clear_intact disk place
        have removed := removeOnly_intact (disk.clear place) path
        rw [cleared.sameOutside.destination_eq] at removed
        rw [← destination_of_locate located] at cleared removed ⊢
        exact cleared.trans removed

end Unbundle.Disk
