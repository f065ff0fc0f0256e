import Unbundle.Proofs.Disk.Again

namespace Unbundle.Disk

open Ascii Unbundle.Path

variable {disk start begun middle after later : Disk} {path : Bytes}

/-- On the way to a disk on which a path leads to a directory, making its directories is not too
much. -/
theorem makeDirectories_bounded (grown : Grown disk later) (opens : later.Opens path) :
    Grown (disk.makeDirectories path).2 later := by
  have same := disk.makeDirectories_sameOutside path
  refine ⟨grown.current.trans same.1.symm, ?_, ?_⟩
  · intro place stands
    rcases makeDirectories_directory stands with stood | passes
    · exact grown.directory place stood
    · obtain ⟨target, located, directory⟩ := opens
      apply directory_of_passes located directory
      rwa [Passes, grown.current]
  · intro place stands
    rw [same.2 place id] at stands
    exact grown.file place stands

theorem Grown.length_missing (grown : Grown disk later) {paths paths' : List Bytes}
    (found : disk.missing path = .ok paths) (found' : later.missing path = .ok paths') :
    paths'.length ≤ paths.length := by
  fun_induction missing disk path generalizing paths paths' with
  | case1 path further state =>
    rw [missing_inside (grown.opens (status_ok state))] at found'
    cases found
    cases found'
    exact Nat.le_refl _
  | case2 | case4 => cases found
  | case3 path further problem state absent ih =>
    obtain ⟨lacking, above, rfl⟩ := map_eq_ok.mp found
    rw [List.length_append]
    rcases missing_cases found' with rfl | ⟨lacking', above', rfl⟩
    · exact Nat.le_add_left _ _
    · rw [List.length_append]
      exact Nat.add_le_add_right (ih above above') _
  | case5 path last =>
    rw [missing, dif_neg last] at found'
    cases found
    cases found'
    exact Nat.le_refl _

/-- Where directories were made, not too many were lacking, nor are on any later disk. -/
theorem shallow_of_made (made : disk.makeDirectories path = (none, after))
    (fresh : ¬disk.Opens path) (opens : after.Opens path) (grown : Grown disk later) :
    later.Shallow path := by
  rcases disk.makeDirectories_cases path with same | ⟨paths, found, _⟩
  · rw [made] at same
    dsimp only at same
    exact absurd (same ▸ opens) fresh
  · obtain ⟨lacking, walked, rfl, few⟩ := missingDirectories_ancestors.mp found
    rw [List.append_nil] at few
    intro lacking' walked'
    exact (grown.length_missing walked walked').trans few

/-- Directories that were made once can be made again from any disk between. -/
theorem makeDirectories_between (made : start.makeDirectories path = (none, begun))
    (fresh : ¬start.Opens path) (opens : begun.Opens path) (first : Grown start middle)
    (second : Grown middle begun) (file : ∀ place, middle.file? place = start.file? place) :
    middle.makeDirectories path = (none, begun) := by
  have starts : start.Starts path := by
    by_contra still
    have same := makeDirectories_adrift still
    rw [made] at same
    dsimp only at same
    exact fresh (same ▸ opens)
  have bounded := makeDirectories_bounded second opens
  rcases again : middle.makeDirectories path with ⟨_ | problem, after⟩
  · have grown := middle.makeDirectories_grown path
    rw [again] at bounded grown
    have led := makeDirectories_starts again (grown.starts (first.starts starts))
    have reached := makeDirectories_bounded (first.trans grown) led
    rw [made] at reached
    have same := start.makeDirectories_sameOutside path
    have same' := middle.makeDirectories_sameOutside path
    rw [made] at same
    rw [again] at same'
    refine congrArg (Prod.mk none) (reached.antisymm bounded ?_)
    intro place
    rw [same'.2 place id, file, same.2 place id]
  · rw [again] at bounded
    obtain ⟨problem', failed⟩ := makeDirectories_again (first.starts starts)
      (shallow_of_made made fresh opens first) again bounded
    rw [opens.makeDirectories_eq] at failed
    cases failed

end Unbundle.Disk
