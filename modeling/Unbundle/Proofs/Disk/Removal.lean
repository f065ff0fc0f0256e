import Unbundle.Proofs.Disk.Arrival

namespace Unbundle.Disk

open Ascii Unbundle.Path

variable {disk after : Disk} {path : Bytes} {place : Place} {content : Bytes}

/-- A file is found under a name of its own. -/
theorem exists_last_name (located : disk.locate path = .ok place)
    (file : disk.find? place = some (.file content)) :
    ∃ name, (names (Bytes.untilNul path)).getLast? = some name ∧ name ≠ here ∧ name ≠ up := by
  have followed := follow_of_locate located
  rcases List.eq_nil_or_concat' (names (Bytes.untilNul path)) with none | ⟨front, name, parts⟩
  · have absolute : isAbsolute (Bytes.untilNul path) = true := by
      by_contra relative
      exact names_ne_nil (seen_ne_nil located) relative none
    rw [none, if_pos absolute] at followed
    cases followed
    rw [find?, disk.rooted] at file
    cases file
  · rw [parts] at followed
    have free : disk.find? place ≠ some .directory := by
      intro directory
      rw [file] at directory
      cases directory
    exact ⟨name, by rw [parts, List.getLast?_concat], proper_of_follow_concat followed free⟩

theorem removeOnly_file (located : disk.locate path = .ok place)
    (file : disk.find? place = some (.file content)) :
    ∃ proper, disk.removeOnly path = (none, disk.remove place proper) := by
  obtain ⟨name, last, still, back⟩ := exists_last_name located file
  have proper : place ≠ [] := by
    rintro rfl
    rw [find?, disk.rooted] at file
    cases file
  refine ⟨proper, ?_⟩
  rw [removeOnly, located]
  dsimp only
  rw [file]
  dsimp only
  rw [last]
  dsimp only
  rw [if_neg still, if_neg back, dif_pos proper]

theorem find?_removeOnly (disk : Disk) (path : Bytes) (place : Place) :
    (disk.removeOnly path).2.find? place = none ∨
      (disk.removeOnly path).2.find? place = disk.find? place := by
  rw [removeOnly]
  split
  · exact .inr rfl
  · exact .inr rfl
  · split
    · exact .inr rfl
    · split
      · exact .inr rfl
      · split
        · exact .inr rfl
        · split
          · exact .inr rfl
          · split
            · rw [find?_remove]
              split
              · exact .inl rfl
              · exact .inr rfl
            · exact .inr rfl

/-- No file is left below what was to be removed with all that it holds. -/
theorem file?_removeAll (present : disk.presence path = .ok true)
    (inside : disk.destination path <+: place) : (disk.removeAll path).2.file? place = none := by
  obtain ⟨entry, state⟩ := presence_ok present
  obtain ⟨target, located, found⟩ := status_ok state
  obtain rfl := destination_of_locate located
  rw [removeAll, state]
  cases entry with
  | file content =>
    obtain ⟨proper, removed⟩ := removeOnly_file located found
    dsimp only
    rw [removed, file?, find?_remove, if_pos inside]
  | directory =>
    rw [located]
    dsimp only
    have left : (disk.clear (disk.destination path)).file? place = none := by
      rw [file?, find?_clear]
      by_cases same : place = disk.destination path
      · rw [if_neg fun below => below.1 same, same, found]
      · rw [if_pos ⟨same, inside⟩]
    rcases find?_removeOnly (disk.clear (disk.destination path)) path place with gone | same
    · rw [file?, gone]
    · rwa [file?_congr same]

end Unbundle.Disk
