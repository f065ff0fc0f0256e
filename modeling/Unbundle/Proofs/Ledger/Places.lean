import Unbundle.Ledger.Plain.File
import Unbundle.Proofs.Disk.Growth
import Unbundle.Proofs.Ledger.Documented

/-!
The files that a ledger has to do with. Main statement: the library that keeps the tables of each
ledger in a file of its own layout touches this file and those that may lie beside it, and no other
one.
-/

namespace Unbundle.Ledger.Plain

open Disk (SameOutside)

/-- The files that may lie beside a ledger. -/
def filesBeside (place : Place) : List Place := [journalOf place, logOf place, indexOf place]

theorem reach_of_follow {disk : Disk} {place other : Place} {names : List Bytes}
    (followed : follow disk place names = .ok other) : Disk.reach place names = other := by
  induction names generalizing place with
  | nil =>
    rw [follow] at followed
    exact Except.ok.inj followed
  | cons name names ih =>
    rw [follow] at followed
    rw [Disk.reach, List.foldl_cons, ← Disk.reach, Disk.step]
    by_cases still : name = Path.here
    · rw [if_pos still] at followed ⊢
      exact ih followed
    rw [if_neg still] at followed ⊢
    by_cases back : name = Path.up
    · rw [if_pos back] at followed ⊢
      exact ih followed
    rw [if_neg back] at followed ⊢
    dsimp only at followed
    by_cases full : maxRoom ≤ room (place ++ [name])
    · rw [if_pos full] at followed
      cases followed
    rw [if_neg full] at followed
    cases passed : disk.follow [] (place ++ [name]) with
    | ok next =>
      rw [passed] at followed
      exact ih followed
    | error problem =>
      rw [passed] at followed
      cases problem with
      | missing => exact ih followed
      | _ => cases followed

namespace File

variable (file : File) (disk : Disk)

/-- Nothing but the files beside the ledger is touched, and no other file is to be a journal. -/
def Contained (file : File) (disk : Disk) (outcome : Except Trouble Means × Disk) : Prop :=
  SameOutside (· ∈ filesBeside file.place) disk outcome.2 ∧
    ∀ means journal, outcome.1 = .ok means → means.journal = some journal →
      journal ∈ filesBeside file.place

variable {file disk}

theorem Contained.error {after : Disk} (same : SameOutside (· ∈ filesBeside file.place) disk after)
    (trouble : Trouble) : file.Contained disk (.error trouble, after) := by
  refine ⟨same, ?_⟩
  intro means journal impossible
  cases impossible

theorem Contained.logged {after : Disk} (same : SameOutside (· ∈ filesBeside file.place) disk after)
    (refusal : Option Trouble) : file.Contained disk (.ok ⟨none, refusal⟩, after) := by
  refine ⟨same, ?_⟩
  intro means journal answer found
  cases answer
  cases found

variable (file disk)

end File

/-- What opening a ledger comes to if its address names the given place, or none. The file at this
place may be made, and no other place is touched. -/
inductive Opens (home : Option Place) (disk : Disk) : Except Trouble Source × Disk → Prop where
  | error (trouble : Trouble) : Opens home disk (.error trouble, disk)
  | memory (unnamed : home = none) (readOnly : Bool) :
    Opens home disk (.ok (.memory readOnly), disk)
  | file {file : File} {after : Disk} (named : home = some file.place)
    (changed : SameOutside (· = file.place) disk after) (stands : after.file? file.place ≠ none) :
    Opens home disk (.ok (.file file), after)

end Plain

end Unbundle.Ledger
