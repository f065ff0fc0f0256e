import Unbundle.Output.Writer
import Unbundle.Proofs.Disk.Below
import Unbundle.Proofs.Disk.Frame

namespace Unbundle

/-- A file that the output is asked to hold. -/
structure Offer where
  path : Bytes
  content : Bytes
  deriving DecidableEq, Repr

/-- Whether a device takes all of every file that is offered below a root. -/
def Device.TakesAll (device : Device) (root : Bytes) (offers : List Offer) : Prop :=
  ∀ offer ∈ offers, device.cut? (Path.below root offer.path) offer.content = none

/-- Whether a part of a file has been written, but not all of it. -/
def Failure.isCut : Failure → Bool
  | cannotWrite file => file.fault = .cut
  | _ => false

namespace Output

variable {policy : OverwritePolicy} {root : Bytes}

def offer (output : Output) (policy : OverwritePolicy) (root : Bytes) (offer : Offer) :
    Except Failure Outcome × Output :=
  output.write policy root offer.path offer.content

/-- The output after offers, whatever becomes of each. -/
def offerAll (output : Output) (policy : OverwritePolicy) (root : Bytes) (offers : List Offer) :
    Output :=
  offers.foldl (fun output offer => (output.offer policy root offer).2) output

/-- Offers made up to the first that fails, and what became of them. -/
def offerEach (output : Output) (policy : OverwritePolicy) (root : Bytes) :
    List Offer → Except Failure (List Outcome) × Output
  | [] => (.ok [], output)
  | offer :: offers =>
    match output.offer policy root offer with
    | (.error failure, output) => (.error failure, output)
    | (.ok outcome, output) =>
      match output.offerEach policy root offers with
      | (.error failure, output) => (.error failure, output)
      | (.ok outcomes, output) => (.ok (outcome :: outcomes), output)

/-- The offers that are made before one fails, and that one. -/
def attempted (output : Output) (policy : OverwritePolicy) (root : Bytes) :
    List Offer → List Offer
  | [] => []
  | offer :: offers =>
    offer ::
      match output.offer policy root offer with
      | (.error _, _) => []
      | (.ok _, output) => output.attempted policy root offers

theorem attempted_prefix (output : Output) (offers : List Offer) :
    output.attempted policy root offers <+: offers := by
  induction offers generalizing output with
  | nil => exact List.prefix_rfl
  | cons offer offers ih =>
    rw [attempted]
    apply List.cons_prefix_cons.mpr
    refine ⟨rfl, ?_⟩
    rcases output.offer policy root offer with ⟨failure | outcome, after⟩
    · exact List.nil_prefix
    · exact ih after

/-- Stopping at the first failure is making only the offers up to it. -/
theorem offerEach_output (output : Output) (offers : List Offer) :
    (output.offerEach policy root offers).2 =
      output.offerAll policy root (output.attempted policy root offers) := by
  induction offers generalizing output with
  | nil => rfl
  | cons offer offers ih =>
    rw [offerEach, attempted, offerAll, List.foldl_cons]
    rcases made : output.offer policy root offer with ⟨failure | outcome, after⟩
    · rfl
    · dsimp only
      rw [← offerAll, ← ih after]
      rcases after.offerEach policy root offers with ⟨failure | outcomes, final⟩ <;> rfl

theorem offerAll_append (output : Output) (first second : List Offer) :
    output.offerAll policy root (first ++ second) =
      (output.offerAll policy root first).offerAll policy root second := by
  rw [offerAll, offerAll, offerAll, List.foldl_append]

theorem makeParent_sameOutside (disk : Disk) (target : Bytes) :
    Disk.SameOutside (fun _ => False) disk (makeParent disk target).2 := by
  rw [makeParent]
  by_cases top : Path.parent target = []
  · rw [if_pos top]
    exact .refl _ disk
  · rw [if_neg top]
    exact disk.makeDirectories_sameOutside _

/-- A file that is put is written where its directory is. -/
theorem put_ok_cases {disk after : Disk} {target content : Bytes}
    (done : put disk target content = (.ok (), after)) :
    ∃ middle, makeParent disk target = (none, middle) ∧ middle.write target content = .ok after := by
  rw [put] at done
  rcases made : makeParent disk target with ⟨_ | problem, middle⟩
  · rw [made] at done
    dsimp only at done
    cases written : middle.write target content with
    | error problem =>
      rw [written] at done
      cases done
    | ok other =>
      rw [written] at done
      cases done
      exact ⟨middle, rfl, written⟩
  · rw [made] at done
    cases done

/-- A file that is not put lacks its directory, or is not written there. -/
theorem put_error_cases {disk after : Disk} {target content : Bytes} {failure : Failure}
    (failed : put disk target content = (.error failure, after)) :
    (failure.isCollision = false ∧ failure.isCut = false) ∧
      ((∃ problem, makeParent disk target = (some problem, after)) ∨
        makeParent disk target = (none, after) ∧
          ∃ problem, after.write target content = .error problem) := by
  rw [put] at failed
  rcases made : makeParent disk target with ⟨_ | problem, middle⟩
  · rw [made] at failed
    dsimp only at failed
    cases written : middle.write target content with
    | error problem =>
      rw [written] at failed
      cases failed
      exact ⟨⟨rfl, rfl⟩, .inr ⟨rfl, problem, written⟩⟩
    | ok other =>
      rw [written] at failed
      cases failed
  · rw [made] at failed
    cases failed
    exact ⟨⟨rfl, rfl⟩, .inl ⟨problem, rfl⟩⟩

theorem put_sameOutside (disk : Disk) (root : Bytes) {path : Bytes} (content : Bytes)
    (canonical : Path.Canonical path) :
    Disk.SameOutside (disk.destination root <+: ·) disk
      (put disk (Path.below root path) content).2 := by
  have parent := makeParent_sameOutside disk (Path.below root path)
  rw [put]
  rcases made : makeParent disk (Path.below root path) with ⟨_ | problem, middle⟩
  · rw [made] at parent
    dsimp only
    cases written : middle.write (Path.below root path) content with
    | error problem => exact parent.of_none
    | ok after =>
      obtain ⟨place, inside, placed⟩ := Disk.write_below canonical written
      rw [parent.destination_eq] at inside
      apply parent.of_none.trans
      apply (Disk.place?_sameOutside placed).mono
      intro other same
      exact same ▸ inside
  · rw [made] at parent
    exact parent.of_none

/-- A file is stored if it is put and the device takes all of it. -/
theorem store_ok_iff {output : Output} {target content : Bytes} {disk : Disk} :
    output.store target content = (.ok (), disk) ↔
      output.device.cut? target content = none ∧ put output.disk target content = (.ok (), disk) := by
  rw [store]
  by_cases whole : output.device.cut? target content = none
  · rw [Device.taken_of_none whole, and_iff_right whole]
    rcases put output.disk target content with ⟨failure | _, after⟩
    · rfl
    · dsimp only
      rw [if_pos whole]
  · refine iff_of_false ?_ fun both => whole both.1
    rcases put output.disk target (output.device.taken target content) with ⟨failure | _, after⟩
    · exact nofun
    · dsimp only
      rw [if_neg whole]
      exact nofun

/-- A file is not stored if it is not put, or only a part of it is. -/
theorem store_error_cases {output : Output} {target content : Bytes} {failure : Failure}
    {disk : Disk} (failed : output.store target content = (.error failure, disk)) :
    put output.disk target (output.device.taken target content) = (.error failure, disk) ∨
      failure = .cannotWrite { path := target, fault := .cut } ∧
        output.device.cut? target content ≠ none ∧
          put output.disk target (output.device.taken target content) = (.ok (), disk) := by
  rw [store] at failed
  rcases stored : put output.disk target (output.device.taken target content) with
    ⟨failure | _, after⟩
  · rw [stored] at failed
    cases failed
    exact .inl rfl
  · rw [stored] at failed
    dsimp only at failed
    by_cases whole : output.device.cut? target content = none
    · rw [if_pos whole] at failed
      cases failed
    · rw [if_neg whole] at failed
      cases failed
      exact .inr ⟨rfl, whole, rfl⟩

theorem store_of_whole {output : Output} {target content : Bytes}
    (whole : output.device.cut? target content = none) :
    output.store target content = put output.disk target content := by
  rw [store, Device.taken_of_none whole]
  rcases put output.disk target content with ⟨failure | _, after⟩
  · rfl
  · dsimp only
    rw [if_pos whole]

theorem store_of_failed {output : Output} {target content : Bytes} {failure : Failure}
    {disk : Disk}
    (failed : put output.disk target (output.device.taken target content) =
      (.error failure, disk)) :
    output.store target content = (.error failure, disk) := by
  rw [store, failed]

theorem store_of_cut {output : Output} {target content : Bytes} {disk : Disk}
    (lacking : output.device.cut? target content ≠ none)
    (done : put output.disk target (output.device.taken target content) = (.ok (), disk)) :
    output.store target content =
      (.error (.cannotWrite { path := target, fault := .cut }), disk) := by
  rw [store, done]
  dsimp only
  rw [if_neg lacking]

theorem store_disk (output : Output) (target content : Bytes) :
    (output.store target content).2 =
      (put output.disk target (output.device.taken target content)).2 := by
  rcases stored : output.store target content with ⟨failure | _, disk⟩
  · rcases store_error_cases stored with put | ⟨_, _, put⟩ <;> rw [put]
  · obtain ⟨whole, put⟩ := store_ok_iff.mp stored
    rw [Device.taken_of_none whole, put]

/-- An offer puts as much of its file as the device takes, or leaves the disk alone. -/
theorem offer_disk (output : Output) (policy : OverwritePolicy) (root : Bytes) (offer : Offer) :
    (output.offer policy root offer).2.disk = output.disk ∨
      (output.offer policy root offer).2.disk =
        (put output.disk (Path.below root offer.path)
          (output.device.taken (Path.below root offer.path) offer.content)).2 := by
  rw [Output.offer, write, ← store_disk]
  cases output.index[offer.path]? with
  | some first =>
    dsimp only
    by_cases agrees : first.agrees (Fingerprint.ofContent offer.content) = true
    · rw [if_pos agrees]
      exact .inl rfl
    · rw [if_neg agrees]
      exact .inl rfl
  | none =>
    dsimp only
    rcases output.isKept policy (Path.below root offer.path) with problem | kept
    · exact .inl rfl
    · cases kept with
      | true => exact .inl rfl
      | false =>
        rcases output.store (Path.below root offer.path) offer.content with
          ⟨failure | _, disk⟩ <;> exact .inr rfl

theorem offer_device (output : Output) (policy : OverwritePolicy) (root : Bytes) (offer : Offer) :
    (output.offer policy root offer).2.device = output.device := by
  rw [Output.offer, write]
  split
  · split <;> rfl
  · dsimp only
    split
    · rfl
    · rfl
    · split <;> rfl

theorem offerAll_device (output : Output) (policy : OverwritePolicy) (root : Bytes)
    (offers : List Offer) : (output.offerAll policy root offers).device = output.device := by
  induction offers generalizing output with
  | nil => rfl
  | cons offer offers ih => exact (ih _).trans (output.offer_device policy root offer)

theorem offer_sameOutside (output : Output) (policy : OverwritePolicy) (root : Bytes)
    {offer : Offer} (canonical : Path.Canonical offer.path) :
    Disk.SameOutside (output.disk.destination root <+: ·) output.disk
      (output.offer policy root offer).2.disk := by
  rcases output.offer_disk policy root offer with same | stored
  · rw [same]
    exact .refl _ output.disk
  · rw [stored]
    exact put_sameOutside output.disk root _ canonical

theorem offerAll_sameOutside (output : Output) (policy : OverwritePolicy) (root : Bytes)
    {offers : List Offer}
    (canonical : ∀ offer ∈ offers, Path.Canonical offer.path) :
    Disk.SameOutside (output.disk.destination root <+: ·) output.disk
      (output.offerAll policy root offers).disk := by
  induction offers generalizing output with
  | nil => exact .refl _ output.disk
  | cons offer offers ih =>
    obtain ⟨first, others⟩ := List.forall_mem_cons.mp canonical
    have changed := output.offer_sameOutside policy root first
    have rest := ih (output.offer policy root offer).2 others
    rw [changed.destination_eq] at rest
    exact changed.trans rest

end Output

end Unbundle
