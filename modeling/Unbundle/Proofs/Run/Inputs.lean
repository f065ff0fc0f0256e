import Unbundle.Proofs.Disk.Removal
import Unbundle.Proofs.Run.Layers
import Unbundle.Proofs.Run.Lockstep

/-!
What a run leaves of the files that it reads. Main statement: preparing the output root takes a file
away just if it lies below a root that is to be cleared, and from then on it is read as it stood, to
the end of the run, unless the run itself writes another one to its place.
-/

namespace Unbundle

open Ascii Disk Unbundle.Path

namespace Disk

variable {disk other start : Disk} {policy : OverwritePolicy} {root path content : Bytes}
  {place target : Place}

/-- Whether preparing the output root takes away what stands at a place. -/
def Removes (disk : Disk) (policy : OverwritePolicy) (root : Bytes) (place : Place) : Prop :=
  policy = .clear ∧ disk.presence root = .ok true ∧ disk.destination root <+: place

theorem prepared_file_iff (stands : disk.file? place = some content) :
    (disk.prepared policy root).2.file? place = some content ↔ ¬disk.Removes policy root place := by
  have prepares := disk.prepares policy root
  have outside := (disk.prepared_sameOutside policy root).2 place
  generalize disk.prepared policy root = result at prepares outside ⊢
  cases prepares with
  | made spared =>
    refine iff_of_true ?_ fun removes => spared removes.1 removes.2.1
    exact ((disk.makeDirectories_sameOutside root).2 place id).trans stands
  | stuck clears present removed =>
    constructor
    · rintro left ⟨_, _, inside⟩
      have gone := file?_removeAll present inside
      rw [removed, left] at gone
      cases gone
    · exact fun stays => (outside fun inside => stays ⟨clears, present, inside⟩).trans stands
  | @cleared middle clears present removed =>
    constructor
    · rintro left ⟨_, _, inside⟩
      have gone := file?_removeAll present inside
      rw [removed, ← (middle.makeDirectories_sameOutside root).2 place id, left] at gone
      cases gone
    · exact fun stays => (outside fun inside => stays ⟨clears, present, inside⟩).trans stands

end Disk

namespace Output

variable {output : Output} {policy : OverwritePolicy} {root content : Bytes} {place : Place}
  {offer : Offer}

theorem file?_offer (stands : output.disk.file? place = some content)
    (opens : output.disk.Starts root → output.disk.Opens root) (canonical : Canonical offer.path)
    (spares : policy = .keep ∨ (offer.seen (output.disk.destination root) = place →
      output.device.taken (below root offer.path) offer.content = content)) :
    (output.offer policy root offer).2.disk.file? place = some content := by
  have stored {part : Bytes} {after : Disk}
      (free : output.isKept policy (below root offer.path) = .ok false)
      (put : put output.disk (below root offer.path) part = (.ok (), after))
      (taken : output.device.taken (below root offer.path) offer.content = part) :
      after.file? place = some content := by
    obtain ⟨_, _, _, _, holds⟩ := put_cut (fun starts => (opens starts).destination_eq) canonical put
    refine (holds place).trans ?_
    by_cases same : place = output.disk.destination root ++ segments (Bytes.untilNul offer.path)
    · rw [if_pos same]
      rcases spares with rfl | agrees
      · have starts := (starts_below canonical.head?_ne_slash).mp (starts_of_put put)
        rw [isKept, if_pos rfl] at free
        have vacant := free_of_put (opens starts) canonical free put
        rw [← same, stands] at vacant
        cases vacant
      · rw [← taken, agrees same.symm]
    · rw [if_neg same]
      exact stands
  have answer := output.answers policy root offer
  generalize (output.offer policy root offer).1 = result,
    (output.offer policy root offer).2 = after at answer ⊢
  cases answer with
  | duplicate | collision | unseen | kept => exact stands
  | failed fresh free put => exact ((put_error put).2 place id).trans stands
  | cut fresh free lacking put => exact stored free put rfl
  | written fresh free whole put => exact stored free put (Device.taken_of_none whole)

theorem file?_offerAll (stands : output.disk.file? place = some content)
    (opens : output.disk.Starts root → output.disk.Opens root) {offers : List Offer}
    (canonical : ∀ offer ∈ offers, Canonical offer.path)
    (spares : policy = .keep ∨ ∀ offer ∈ offers,
      offer.seen (output.disk.destination root) = place →
        output.device.taken (below root offer.path) offer.content = content) :
    (output.offerAll policy root offers).disk.file? place = some content := by
  induction offers generalizing output with
  | nil => exact stands
  | cons offer offers ih =>
    obtain ⟨proper, others⟩ := List.forall_mem_cons.mp canonical
    have current := (output.offer_grown policy root offer).current
    apply ih (file?_offer stands opens proper ?_) (offer_opens opens proper) others
    · apply spares.imp_right
      intro agree other member
      rw [destination, current, offer_device]
      exact agree other (List.mem_cons_of_mem offer member)
    · exact spares.imp_right fun agree => agree offer List.mem_cons_self

end Output

namespace Workspace

variable {space begun before : Workspace} {policy : OverwritePolicy} {root input content : Bytes}
  {place : Place}

/-- All that a run comes to: it ends before or while the root is prepared, or its queue is unpacked
there and then recorded. -/
inductive Runs (space : Workspace) (policy : OverwritePolicy) (root : Bytes) :
    List Offer → List (Workspace × Package) → Disk → Prop
  | refused : Runs space policy root [] [] space.disk
  | unprepared : Runs space policy root [] [] (space.disk.prepared policy root).2
  | done {begun : Workspace} {final : Disk} (proceeds : Bool) (packages : List Package)
      (ready : space.disk.prepared policy root = (none, begun.disk))
      (same : begun.context = space.context) (platform : begun.platform = space.platform)
      (recorded : SameOutside (· ∈ space.ledgerFiles)
        (begun.unpackQueue policy root proceeds packages).2.2.disk final) :
      Runs space policy root (begun.queueOffers policy root proceeds packages)
        (begun.stages policy root proceeds packages) final

theorem runs {space : Workspace} (records : space.Records) (policy : OverwritePolicy)
    (root input : Bytes) :
    Runs space policy root (space.offers policy root input) (space.runStages policy root input)
      (space.unpack policy root input).2.disk := by
  have ran := space.ran policy root input
  generalize space.offers policy root input = offers, space.runStages policy root input = stages,
    space.unpack policy root input = result at ran ⊢
  cases ran with
  | idle => exact .refused
  | unprepared _ _ _ left =>
    rw [left]
    exact .unprepared
  | @done found begun after reports stop _ _ _ ready context platform unpacked =>
    generalize space.context.settings.failurePolicy.proceeds found.inDirectory = proceeds
      at unpacked ⊢
    obtain ⟨written, kept⟩ :=
      begun.unpackQueue_sameOutside policy root proceeds found.queue.packages
    have relies := begun.platform_unpackQueue policy root proceeds found.queue.packages
    apply Runs.done proceeds found.queue.packages ready context platform
    rw [unpacked] at written kept relies ⊢
    have known : after.context.settings = space.context.settings :=
      kept.trans (congrArg Context.settings context)
    have unmoved : after.platform = space.platform := relies.trans platform
    have recorded : after.Records := by
      rw [Records, known, unmoved]
      exact records
    have concluded := conclude_sameOutside recorded root reports stop
    have prepared := space.disk.prepared_sameOutside policy root
    rw [ready] at prepared
    rwa [ledgerFiles_congr known unmoved (written.1.trans prepared.1)] at concluded

/-- A main package with one file, and another package. -/
def inputSpace (name : String) : Workspace :=
  packagesSpace [(utf8 "in/app.wxapkg", [⟨utf8 name, utf8 "x"⟩]), (utf8 "in/b.wxapkg", [])]

end Workspace

end Unbundle
