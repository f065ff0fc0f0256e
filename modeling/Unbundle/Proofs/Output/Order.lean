import Unbundle.Proofs.Output.Between
import Unbundle.Proofs.Output.Depth
import Unbundle.Proofs.Output.Taking

/-!
Files offered in another order. Main statement: unless files are to be kept, offers that none of
fails come to the same in any order just if each of them could be made first. Where files are kept
it is enough that what is to be kept is seen from the start, too. Below a root that is there both
hold, unless a path lies too deep.
-/

namespace Unbundle

open Ascii Disk Unbundle.Path

theorem Consistent.mono {offers others : List Offer} (consistent : Consistent offers)
    (included : others ⊆ offers) : Consistent others where
  agree one member two present :=
    consistent.agree one (included member) two (included present)
  apart one member two present :=
    consistent.apart one (included member) two (included present)

namespace Output

variable {policy : OverwritePolicy} {root : Bytes} {start output next final : Output}
  {offer other : Offer} {offers others part : List Offer} {outcome : Outcome}
  {outcomes : List Outcome} {first : Offer → Outcome} {last : Disk}

/-! ### Offers that are taken -/

namespace Takes

theorem device (takes : output.Takes policy root offer outcome next) :
    next.device = output.device := by
  cases takes <;> rfl

/-- An offer leaves all files alone but the one that it writes. -/
theorem file? (takes : output.Takes policy root offer outcome next)
    (canonical : Canonical offer.path) (plain : nul ∉ offer.path) (place : Place) :
    next.disk.file? place =
      if outcome = .written ∧ place = output.disk.destination (below root offer.path) then
        some offer.content
      else output.disk.file? place := by
  cases takes with
  | duplicate => rfl
  | kept => rfl
  | written fresh free whole done =>
    have uncut := uncut_of_put canonical done
    rw [destination_canonical _ uncut canonical plain]
    refine ((put_ok canonical plain (fun cut => absurd cut uncut) done).2.2 place).trans ?_
    simp only [true_and]

theorem path_eq (takes : output.Takes policy root offer .written next)
    (canonical : Canonical offer.path) (plain : nul ∉ offer.path)
    (canonical' : Canonical other.path) (plain' : nul ∉ other.path)
    (same : output.disk.destination (below root other.path) =
      output.disk.destination (below root offer.path)) : other.path = offer.path := by
  cases takes with
  | written fresh free whole done =>
    have uncut := uncut_of_put canonical done
    rw [destination_canonical _ uncut canonical plain,
      destination_canonical _ uncut canonical' plain'] at same
    exact Offer.place_inj same

end Takes

/-! ### Offers that wait for their turn -/

/-- Whether nothing is going to be found where an offer is to be written if it is made after others:
nothing is found now, and the place is free as soon as there is any other path to come first. -/
def Waits (output : Output) (policy : OverwritePolicy) (root : Bytes) (offers : List Offer)
    (offer : Offer) : Prop :=
  policy = .keep →
    output.disk.presence (below root offer.path) ≠ .ok true ∧
      ∀ other ∈ offers, output.index[other.path]? = none → other.path ≠ offer.path →
        output.disk.Unclaimed root offer.path

theorem Waits.take (waits : output.Waits policy root offers offer)
    (proper : ∀ offer ∈ offers, Canonical offer.path ∧ nul ∉ offer.path)
    (consistent : Consistent offers) (member : offer ∈ offers) (present : other ∈ offers)
    (differ : other.path ≠ offer.path) (takes : output.Takes policy root other outcome next) :
    next.Waits policy root offers offer := by
  intro keeps
  cases takes with
  | duplicate => exact waits keeps
  | kept fresh stands =>
    refine ⟨(waits keeps).1, fun one within unseen apart => (waits keeps).2 one within ?_ apart⟩
    have index := (Takes.kept fresh stands).index_eq
    rw [index, noted_eq_none] at unseen
    exact unseen.1
  | written fresh free whole done =>
    obtain ⟨canonical, plain⟩ := proper offer member
    obtain ⟨canonical', plain'⟩ := proper other present
    have unclaimed := ((waits keeps).2 other present fresh differ).put canonical plain canonical'
      plain' (fun above => differ (consistent.apart offer member other present above).symm) done
    exact ⟨unclaimed.presence_ne, fun _ _ _ _ => unclaimed⟩

/-- What waits can be written, if it is there in the end. -/
theorem Waits.free (waits : output.Waits policy root offers offer)
    (bounded : Grown output.disk last)
    (present : last.presence (below root offer.path) = .ok true) :
    output.isKept policy (below root offer.path) = .ok false := by
  rw [isKept]
  split
  · next keeps =>
    rcases seen : output.disk.presence (below root offer.path) with problem | _ | _
    · rw [bounded.presence_problem seen] at present
      cases present
    · rfl
    · exact absurd seen (waits keeps).1
  · rfl

theorem exists_turn (proper : ∀ offer ∈ offers, Canonical offer.path ∧ nul ∉ offer.path)
    (consistent : Consistent offers) (included : part ⊆ offers) (member : offer ∈ part)
    (fresh : output.index[offer.path]? = none)
    (done : output.offerEach policy root part = (.ok outcomes, final)) :
    ∃ (before : Output) (outcome : Outcome) (after : Output),
      Grown output.disk before.disk ∧ before.device = output.device ∧
      before.Takes policy root offer outcome after ∧ outcome ≠ .duplicate ∧
      Grown after.disk final.disk ∧
      (output.Waits policy root offers offer → before.Waits policy root offers offer) := by
  induction part generalizing output outcomes with
  | nil => cases member
  | cons head part ih =>
    obtain ⟨outcome, next, others, takes, rest, rfl⟩ := offerEach_cons_ok.mp done
    have reached := next.offerEach_grown policy root part
    rw [rest] at reached
    by_cases same : head = offer
    · subst same
      exact ⟨output, outcome, next, .refl _, rfl, takes, takes.ne_duplicate fresh, reached, id⟩
    · have present := included (.head part)
      have inside := (List.mem_cons.mp member).resolve_left (Ne.symm same)
      have differ : head.path ≠ offer.path := fun paths =>
        same (consistent.eq_of_path present (included (.tail _ inside)) paths)
      have unseen : next.index[offer.path]? = none := by
        rw [takes.index_eq, noted_eq_none]
        exact ⟨fresh, differ⟩
      obtain ⟨before, outcome', after, since, device, taken, kind, ends, waited⟩ :=
        ih (fun _ within => included (.tail _ within)) inside unseen rest
      refine ⟨before, outcome', after, takes.grown.trans since, device.trans takes.device, taken,
        kind, ends, fun waits => ?_⟩
      exact waited (waits.take proper consistent (included (.tail _ inside)) present differ takes)

theorem exists_put (proper : ∀ offer ∈ offers, Canonical offer.path ∧ nul ∉ offer.path)
    (consistent : Consistent offers) (included : part ⊆ offers) (member : offer ∈ part)
    (fresh : output.index[offer.path]? = none) (waits : output.Waits policy root offers offer)
    (done : output.offerEach policy root part = (.ok outcomes, final)) :
    output.device.cut? (below root offer.path) offer.content = none ∧
      ∃ disk after, Grown output.disk disk ∧
        put disk (below root offer.path) offer.content = (.ok (), after) ∧
        Grown after final.disk := by
  obtain ⟨before, outcome, after, since, device, takes, kind, ends, waited⟩ :=
    exists_turn proper consistent included member fresh done
  cases takes with
  | duplicate => exact absurd rfl kind
  | kept _ stands =>
    obtain ⟨keeps, present⟩ := isKept_eq_true.mp stands
    exact absurd present (waited waits keeps).1
  | written _ _ whole stored => exact ⟨device ▸ whole, _, _, since, stored, ends⟩

/-! ### Offers made again in another order -/

/-- Offers that can all be made first, and of which none is going to be found where it is written on
the way to a disk that bears all their files. -/
structure Settled (start : Output) (policy : OverwritePolicy) (root : Bytes) (offers : List Offer)
    (first : Offer → Outcome) (last : Disk) : Prop where
  proper : ∀ offer ∈ offers, Canonical offer.path ∧ nul ∉ offer.path
  consistent : Consistent offers
  takes : ∀ offer ∈ offers, ∃ next, start.Takes policy root offer (first offer) next
  waits : ∀ offer ∈ offers, first offer = .written → start.Waits policy root offers offer
  bears : ∀ offer ∈ offers, first offer = .written → last.Bears (below root offer.path)
  grown : Grown start.disk last

namespace Settled

/-- A file that is to be written is one for a new path. -/
theorem fresh (settled : Settled start policy root offers first last) (member : offer ∈ offers)
    (told : first offer = .written) : start.index[offer.path]? = none := by
  obtain ⟨next, takes⟩ := settled.takes offer member
  rw [told] at takes
  cases takes with
  | written fresh => exact fresh

/-- A file that is to be written is found in the end. -/
theorem present (settled : Settled start policy root offers first last) (member : offer ∈ offers)
    (told : first offer = .written) : last.presence (below root offer.path) = .ok true := by
  obtain ⟨canonical, plain⟩ := settled.proper offer member
  have bounded := put_bounded settled.grown (settled.bears offer member told) offer.content
  obtain ⟨next, takes⟩ := settled.takes offer member
  rw [told] at takes
  cases takes with
  | written fresh free whole done =>
    rw [done] at bounded
    exact bounded.presence_eq (presence_of_put canonical plain
      (fun cut => absurd cut (uncut_of_put canonical done)) done)

theorem of_done (proper : ∀ offer ∈ offers, Canonical offer.path ∧ nul ∉ offer.path)
    (consistent : Consistent offers)
    (takes : ∀ offer ∈ offers, ∃ next, start.Takes policy root offer (first offer) next)
    (waits : ∀ offer ∈ offers, first offer = .written → start.Waits policy root offers offer)
    (done : start.offerEach policy root offers = (.ok outcomes, final)) :
    Settled start policy root offers first final.disk := by
  have grown := start.offerEach_grown policy root offers
  rw [done] at grown
  refine ⟨proper, consistent, takes, waits, fun offer member told => ?_, grown⟩
  obtain ⟨next, taken⟩ := takes offer member
  have wait := waits offer member told
  rw [told] at taken
  cases taken with
  | written fresh =>
    obtain ⟨_, disk, after, _, stored, ends⟩ :=
      exists_put proper consistent (List.Subset.refl _) member fresh wait done
    exact ends.bears (bears_of_put stored)

end Settled

/-- An output on the way from a start to a disk that bears all files of some offers. -/
structure Midway (start : Output) (policy : OverwritePolicy) (root : Bytes) (offers : List Offer)
    (first : Offer → Outcome) (last : Disk) (output : Output) : Prop where
  since : Grown start.disk output.disk
  bounded : Grown output.disk last
  device : output.device = start.device
  fresh : ∀ path : Bytes, output.index[path]? = none → start.index[path]? = none
  known : ∀ offer ∈ offers, output.index[offer.path]? ≠ none →
    output.Knows offer.path offer.content
  waits : ∀ offer ∈ offers, first offer = .written → output.index[offer.path]? = none →
    output.Waits policy root offers offer
  file : ∀ place, output.disk.file? place = start.disk.file? place ∨
    ∃ offer ∈ offers, first offer = .written ∧
      start.disk.destination (below root offer.path) = place
  stored : ∀ offer ∈ offers, first offer = .written → output.index[offer.path]? ≠ none →
    output.disk.file? (start.disk.destination (below root offer.path)) = some offer.content

namespace Midway

private theorem of_start (settled : Settled start policy root offers first last) :
    Midway start policy root offers first last start where
  since := .refl _
  bounded := settled.grown
  device := rfl
  fresh _ fresh := fresh
  known offer member recorded := by
    obtain ⟨next, takes⟩ := settled.takes offer member
    generalize first offer = outcome at takes
    cases takes with
    | duplicate known => exact known
    | kept fresh => exact absurd fresh recorded
    | written fresh => exact absurd fresh recorded
  waits offer member told _ := settled.waits offer member told
  file _ := .inl rfl
  stored offer member told recorded := absurd (settled.fresh member told) recorded

theorem of_takes (settled : Settled start policy root offers first last)
    (midway : Midway start policy root offers first last output) (member : offer ∈ offers)
    (takes : output.Takes policy root offer (first offer) next) (bounded : Grown next.disk last) :
    Midway start policy root offers first last next := by
  obtain ⟨canonical, plain⟩ := settled.proper offer member
  have led := midway.since.destination_eq
  have files := takes.file? canonical plain
  have recorded (path : Bytes) (apart : offer.path ≠ path) :
      next.index[path]? = none ↔ output.index[path]? = none := by
    rw [takes.index_eq, noted_eq_none, and_iff_left apart]
  refine ⟨midway.since.trans takes.grown, bounded, takes.device.trans midway.device,
    ?_, ?_, ?_, ?_, ?_⟩
  · intro path fresh
    rw [takes.index_eq, noted_eq_none] at fresh
    exact midway.fresh path fresh.1
  · intro other present known
    by_cases same : offer = other
    · exact same ▸ takes.knows
    · have apart := fun paths => same (settled.consistent.eq_of_path member present paths)
      exact takes.knows_still (midway.known other present (mt (recorded _ apart).mpr known))
  · intro other present told fresh
    rw [takes.index_eq, noted_eq_none] at fresh
    exact (midway.waits other present told fresh.1).take settled.proper settled.consistent present
      member fresh.2 takes
  · intro place
    rw [files]
    split
    · next met => exact .inr ⟨offer, member, met.1, (led _).symm.trans met.2.symm⟩
    · exact midway.file place
  · intro other present told known
    rw [files]
    by_cases same : offer = other
    · subst same
      rw [if_pos ⟨told, (led _).symm⟩]
    · have apart := fun paths => same (settled.consistent.eq_of_path member present paths)
      rw [if_neg]
      · exact midway.stored other present told (mt (recorded _ apart).mpr known)
      · rintro ⟨written, met⟩
        rw [← led] at met
        obtain ⟨canonical', plain'⟩ := settled.proper other present
        rw [written] at takes
        exact apart (takes.path_eq canonical plain canonical' plain' met).symm

/-- On the way, each of the offers is taken as it would be if it were made first, or is known. -/
theorem take (settled : Settled start policy root offers first last)
    (midway : Midway start policy root offers first last output) (member : offer ∈ offers) :
    ∃ next, output.Takes policy root offer
        (if output.index[offer.path]? = none then first offer else .duplicate) next ∧
      Midway start policy root offers first last next := by
  by_cases fresh : output.index[offer.path]? = none
  · rw [if_pos fresh]
    suffices taken : ∃ next, output.Takes policy root offer (first offer) next ∧
        Grown next.disk last by
      obtain ⟨next, takes, bounded⟩ := taken
      exact ⟨next, takes, midway.of_takes settled member takes bounded⟩
    have wait (told : first offer = .written) :=
      (midway.waits offer member told fresh).free midway.bounded (settled.present member told)
    have bears := settled.bears offer member
    obtain ⟨began, takes⟩ := settled.takes offer member
    have kind := takes.ne_duplicate (midway.fresh _ fresh)
    generalize first offer = outcome at takes kind wait bears
    cases takes with
    | duplicate => exact absurd rfl kind
    | kept _ stands =>
      obtain ⟨keeps, present⟩ := isKept_eq_true.mp stands
      exact ⟨_, .kept fresh (isKept_eq_true.mpr ⟨keeps, midway.since.presence_eq present⟩),
        midway.bounded⟩
    | written _ free whole done =>
      obtain ⟨disk, stored, bounded⟩ := put_between done midway.since midway.bounded (bears rfl)
      rw [← midway.device] at whole
      exact ⟨_, .written fresh (wait rfl) whole stored, bounded⟩
  · rw [if_neg fresh]
    exact ⟨output, .duplicate (midway.known offer member fresh), midway⟩

/-- On the way, offers are taken one after the other, each as it was told. -/
theorem offerEach (settled : Settled start policy root offers first last)
    (midway : Midway start policy root offers first last output) (included : part ⊆ offers) :
    ∃ next, output.offerEach policy root part = (.ok (foretell first output.index part), next) ∧
      Midway start policy root offers first last next ∧
      next.index = part.foldl noted output.index := by
  induction part generalizing output with
  | nil => exact ⟨output, rfl, midway, rfl⟩
  | cons head part ih =>
    obtain ⟨middle, takes, onward⟩ := midway.take settled (included (.head part))
    obtain ⟨next, rest, arrived, index⟩ := ih onward fun _ within => included (.tail _ within)
    rw [takes.index_eq] at rest index
    exact ⟨next, offerEach_cons_ok.mpr ⟨_, middle, _, takes, rest, rfl⟩, arrived, index⟩

theorem file?_eq {last' : Disk} (midway : Midway start policy root offers first last output)
    (midway' : Midway start policy root offers first last' next)
    (all : ∀ offer ∈ offers, output.index[offer.path]? ≠ none)
    (all' : ∀ offer ∈ offers, next.index[offer.path]? ≠ none) (place : Place) :
    next.disk.file? place = output.disk.file? place := by
  have written (offer : Offer) (member : offer ∈ offers) (told : first offer = .written) :
      next.disk.file? (start.disk.destination (below root offer.path)) =
        output.disk.file? (start.disk.destination (below root offer.path)) := by
    rw [midway.stored offer member told (all offer member),
      midway'.stored offer member told (all' offer member)]
  rcases midway.file place with same | ⟨offer, member, told, rfl⟩
  · rcases midway'.file place with same' | ⟨offer, member, told, rfl⟩
    · rw [same, same']
    · exact written offer member told
  · exact written offer member told

end Midway

/-! ### Offers in any order -/

/-- Whether the order of offers makes no difference: each of them could be made first, and what is
to be kept where an offer goes is seen before any other one for a new path is made. -/
structure Exchangeable (output : Output) (policy : OverwritePolicy) (root : Bytes)
    (offers : List Offer) : Prop where
  first : ∀ offer ∈ offers, ∃ outcome next, output.offer policy root offer = (.ok outcome, next)
  shown : policy = .keep → ∀ offer ∈ offers, ∀ other ∈ offers,
    output.index[offer.path]? = none → output.index[other.path]? = none →
    other.path ≠ offer.path →
    output.disk.find? (output.disk.destination (below root offer.path)) ≠ none →
    output.disk.presence (below root offer.path) = .ok true

private theorem Exchangeable.waits (exchangeable : output.Exchangeable policy root offers)
    (proper : ∀ offer ∈ offers, Canonical offer.path ∧ nul ∉ offer.path) (member : offer ∈ offers)
    (takes : output.Takes policy root offer .written next) :
    output.Waits policy root offers offer := by
  intro keeps
  obtain ⟨canonical, plain⟩ := proper offer member
  cases takes with
  | written fresh free whole done =>
    have absent : output.disk.presence (below root offer.path) ≠ .ok true := by
      intro present
      rw [isKept_eq_true.mpr ⟨keeps, present⟩] at free
      cases free
    refine ⟨absent, fun other present unseen differ => ⟨?_, not_passes_of_put canonical plain done⟩⟩
    by_contra stands
    exact absent (exchangeable.shown keeps offer member other present fresh unseen differ stands)

private theorem Exchangeable.of_mem_iff (exchangeable : output.Exchangeable policy root offers)
    (same : ∀ offer, offer ∈ others ↔ offer ∈ offers) :
    output.Exchangeable policy root others where
  first offer member := exchangeable.first offer ((same offer).mp member)
  shown keeps offer member other present :=
    exchangeable.shown keeps offer ((same offer).mp member) other ((same other).mp present)

theorem Exchangeable.settled (exchangeable : output.Exchangeable policy root offers)
    (proper : ∀ offer ∈ offers, Canonical offer.path ∧ nul ∉ offer.path)
    (consistent : Consistent offers)
    (takes : ∀ offer ∈ offers, ∃ next, output.Takes policy root offer (first offer) next)
    (done : output.offerEach policy root offers = (.ok outcomes, final)) :
    Settled output policy root offers first final.disk := by
  refine .of_done proper consistent takes (fun offer member told => ?_) done
  obtain ⟨next, taken⟩ := takes offer member
  rw [told] at taken
  exact exchangeable.waits proper member taken

theorem Exchangeable.offerEach_perm (exchangeable : output.Exchangeable policy root offers)
    (proper : ∀ offer ∈ offers, Canonical offer.path ∧ nul ∉ offer.path)
    (consistent : Consistent offers)
    (done : output.offerEach policy root offers = (.ok outcomes, final))
    (perm : others.Perm offers) :
    ∃ outcomes', output.offerEach policy root others = (.ok outcomes', final) ∧
      (others.zip outcomes').Perm (offers.zip outcomes) := by
  have firsts (offer : Offer) : ∃ outcome, offer ∈ offers →
      ∃ next, output.Takes policy root offer outcome next := by
    by_cases member : offer ∈ offers
    · obtain ⟨outcome, next, made⟩ := exchangeable.first offer member
      exact ⟨outcome, fun _ => ⟨next, takes_iff.mp made⟩⟩
    · exact ⟨.written, fun member' => absurd member' member⟩
  choose first takes using firsts
  have settled := exchangeable.settled proper consistent takes done
  have same (offer : Offer) : offer ∈ others ↔ offer ∈ offers := perm.mem_iff
  obtain ⟨again, made, arrived, index⟩ :=
    (Midway.of_start settled).offerEach settled (List.Subset.refl _)
  obtain ⟨next, made', arrived', index'⟩ :=
    (Midway.of_start settled).offerEach settled perm.subset
  rw [done] at made
  cases made
  -- The offers in their first order are as good a permutation of the others.
  have settled' := (exchangeable.of_mem_iff same).settled
    (fun offer member => proper offer ((same offer).mp member)) (consistent.mono perm.subset)
    (fun offer member => takes offer ((same offer).mp member)) made'
  obtain ⟨again, made, back, _⟩ :=
    (Midway.of_start settled').offerEach settled' perm.symm.subset
  rw [done] at made
  cases made
  have ends : next.index = final.index := by
    rw [index, index']
    refine perm.foldl_eq' (fun one member two member' index => noted_comm fun paths => ?_) _
    exact consistent.eq_of_path (perm.subset member) (perm.subset member') paths
  have recorded (offer : Offer) (member : offer ∈ offers) : final.index[offer.path]? ≠ none := by
    rw [index, Ne, foldl_noted_eq_none]
    exact fun fresh => fresh.2 offer member rfl
  have disk : next.disk = final.disk :=
    back.bounded.antisymm arrived'.bounded
      (arrived.file?_eq arrived' recorded fun offer member => ends ▸ recorded offer member)
  have device : next.device = final.device := arrived'.device.trans arrived.device.symm
  have output : next = final := by
    cases next
    cases final
    cases disk
    cases ends
    cases device
    rfl
  refine ⟨_, output ▸ made', foretell_perm first perm (fun one member two member' => ?_) _⟩
  exact consistent.eq_of_path member member'

theorem first_of_perms
    (always : ∀ others : List Offer, others.Perm offers →
      ∃ outcomes' final', output.offerEach policy root others = (.ok outcomes', final'))
    (member : offer ∈ offers) :
    ∃ outcome next, output.offer policy root offer = (.ok outcome, next) := by
  obtain ⟨outcomes', final', done⟩ := always _ (List.perm_cons_erase member).symm
  obtain ⟨outcome, next, _, takes, _⟩ := offerEach_cons_ok.mp done
  exact ⟨outcome, next, takes_iff.mpr takes⟩

/-! ### Offers below a root that is there -/

theorem Takes.located (takes : output.Takes policy root offer outcome next)
    (kind : outcome ≠ .duplicate) :
    ∃ place, next.disk.locate (below root offer.path) = .ok place := by
  cases takes with
  | duplicate => exact absurd rfl kind
  | kept fresh stands =>
    obtain ⟨entry, state⟩ := presence_ok (isKept_eq_true.mp stands).2
    obtain ⟨place, located, _⟩ := status_ok state
    exact ⟨place, located⟩
  | written fresh free whole done => exact located_of_put done

private theorem isKept_problem {target : Bytes} {problem : Problem}
    (grown : Grown output.disk next.disk)
    (seen : output.isKept policy target = .error problem) :
    next.isKept policy target = .error problem := by
  rw [isKept] at seen ⊢
  split at seen
  · next keeps =>
    rw [if_pos keeps]
    exact grown.presence_problem seen
  · cases seen

theorem store_of_opens (opens : output.disk.Opens root)
    (proper : ∀ offer ∈ offers, Canonical offer.path ∧ nul ∉ offer.path)
    (consistent : Consistent offers) (member : offer ∈ offers)
    (few : (segments offer.path).length ≤ maxDepth + 1)
    (fresh : output.index[offer.path]? = none) (waits : output.Waits policy root offers offer)
    (done : output.offerEach policy root offers = (.ok outcomes, final)) :
    ∃ after, output.store (below root offer.path) offer.content = (.ok (), after) := by
  have grown := output.offerEach_grown policy root offers
  rw [done] at grown
  obtain ⟨whole, disk, later, _, made, ends⟩ :=
    exists_put proper consistent (List.Subset.refl _) member fresh waits done
  have bears := ends.bears (bears_of_put made)
  have bounded := put_bounded grown bears offer.content
  rcases stored : put output.disk (below root offer.path) offer.content with ⟨failure | _, after⟩
  · exfalso
    rw [stored] at bounded
    have started := put_grown disk (below root offer.path) offer.content
    rw [made] at started
    obtain ⟨failure', failed⟩ :=
      put_again_error opens (proper offer member).1 few stored bounded
    obtain ⟨_, again, _⟩ := put_between made (started.trans ends) (.refl _) bears
    rw [failed] at again
    cases again
  · exact ⟨after, store_ok_iff.mpr ⟨whole, stored⟩⟩

/-- Offers that none of fails are exchangeable below a root that is there, if no path lies too
deep. -/
theorem exchangeable_of_opens (opens : output.disk.Opens root)
    (proper : ∀ offer ∈ offers, Canonical offer.path ∧ nul ∉ offer.path)
    (consistent : Consistent offers)
    (few : ∀ offer ∈ offers, (segments offer.path).length ≤ maxDepth + 1)
    (done : output.offerEach policy root offers = (.ok outcomes, final)) :
    output.Exchangeable policy root offers := by
  have turn (offer : Offer) (member : offer ∈ offers) (fresh : output.index[offer.path]? = none) :=
    exists_turn proper consistent (List.Subset.refl _) member fresh done
  have shown (offer : Offer) (member : offer ∈ offers) (fresh : output.index[offer.path]? = none)
      (stands : output.disk.find? (output.disk.destination (below root offer.path)) ≠ none) :
      output.disk.presence (below root offer.path) = .ok true := by
    obtain ⟨canonical, plain⟩ := proper offer member
    by_cases cut : nul ∈ root
    · exact (opens.congr (untilNul_below cut canonical.head?_ne_slash)).presence_eq
    obtain ⟨before, outcome, after, since, _, takes, kind, _⟩ := turn offer member fresh
    obtain ⟨place, located⟩ := takes.located kind
    obtain ⟨home, opened, _⟩ := opens
    have led := follow_of_locate opened
    rw [Bytes.untilNul_eq_self cut] at led
    exact presence_below cut canonical plain ⟨home, led⟩
      (since.trans takes.grown).current located stands
  refine ⟨fun offer member => ?_, fun _ offer member _ _ fresh _ _ => shown offer member fresh⟩
  obtain ⟨canonical, plain⟩ := proper offer member
  by_cases fresh : output.index[offer.path]? = none
  · rcases seen : output.isKept policy (below root offer.path) with problem | _ | _
    · obtain ⟨before, outcome, after, since, _, takes, kind, _⟩ := turn offer member fresh
      have refused := isKept_problem since seen
      cases takes with
      | duplicate => exact absurd rfl kind
      | kept _ stands => rw [refused] at stands; cases stands
      | written _ free => rw [refused] at free; cases free
    · have waits : output.Waits policy root offers offer := by
        intro keeps
        have absent : output.disk.presence (below root offer.path) ≠ .ok true := by
          intro present
          rw [isKept_eq_true.mpr ⟨keeps, present⟩] at seen
          cases seen
        have free := not_not.mp (mt (shown offer member fresh) absent)
        refine ⟨absent, fun _ _ _ _ => ⟨free, fun passes => ?_⟩⟩
        obtain ⟨home, opened, directory⟩ := opens
        rw [directory_of_passes opened directory passes] at free
        cases free
      obtain ⟨after, stored⟩ :=
        store_of_opens opens proper consistent member (few offer member) fresh waits done
      exact ⟨_, _, offer_written fresh seen stored⟩
    · exact ⟨_, _, offer_kept fresh seen⟩
  · exact ⟨_, _, offer_known (knows_of_done member fresh done) policy root⟩

/-- Whether some offers come to the same in any order: every order ends with the same output and
with as many outcomes of each kind, and each offer has the outcome that it had. -/
def Commutes (output : Output) (policy : OverwritePolicy) (root : Bytes) (offers : List Offer)
    (outcomes : List Outcome) (final : Output) : Prop :=
  ∀ others : List Offer, others.Perm offers →
    ∃ outcomes', output.offerEach policy root others = (.ok outcomes', final) ∧
      outcomes'.Perm outcomes ∧ (others.zip outcomes').Perm (offers.zip outcomes)

/-- Writes commute. Unless files are to be kept, offers that none of fails come to the same in any
order just if each of them could be made first. Exchangeable offers do under every policy, and below
a root that is there offers always are exchangeable, unless a path lies too deep. -/
theorem offers_commute
    (proper : ∀ offer ∈ offers, Canonical offer.path ∧ nul ∉ offer.path)
    (consistent : Consistent offers)
    (done : output.offerEach policy root offers = (.ok outcomes, final)) :
    (policy ≠ .keep →
      (output.Commutes policy root offers outcomes final ↔ ∀ offer ∈ offers, ∃ outcome next,
        output.offer policy root offer = (.ok outcome, next))) ∧
    (output.Exchangeable policy root offers →
      output.Commutes policy root offers outcomes final) ∧
    (output.disk.Opens root → (∀ offer ∈ offers, (segments offer.path).length ≤ maxDepth + 1) →
      output.Exchangeable policy root offers) := by
  have commute (exchangeable : output.Exchangeable policy root offers) :
      output.Commutes policy root offers outcomes final := by
    intro others perm
    obtain ⟨outcomes', made, told⟩ := exchangeable.offerEach_perm proper consistent done perm
    refine ⟨outcomes', made, ?_, told⟩
    have ends := told.map Prod.snd
    rwa [List.map_snd_zip (size_offerEach made).1.le,
      List.map_snd_zip (size_offerEach done).1.le] at ends
  refine ⟨fun replaces => ⟨fun always offer member => ?_, fun first => commute ?_⟩, commute,
    fun opens few => exchangeable_of_opens opens proper consistent few done⟩
  · refine first_of_perms (fun others perm => ?_) member
    obtain ⟨outcomes', made, _⟩ := always others perm
    exact ⟨outcomes', final, made⟩
  · exact ⟨first, fun keeps => absurd keeps replaces⟩

/-- Two files in one directory. -/
def pairSpace : Output where
  disk :=
    [utf8 "out/f", utf8 "out/g"].foldl (fun disk path => (put disk path (utf8 "old")).2) .empty

/-- A file that stands already, one for a directory that is yet to be made, and the first again. -/
def sampleOffers : List Offer :=
  [⟨utf8 "f", utf8 "new"⟩, ⟨utf8 "d/f", utf8 "1"⟩, ⟨utf8 "f", utf8 "new"⟩]

theorem offers_commute_sample :
    ∃ outcomes, pairSpace.offerEach .keep (utf8 "out") sampleOffers.reverse =
        (.ok outcomes, (pairSpace.offerEach .keep (utf8 "out") sampleOffers).2) ∧
      outcomes.Perm [.kept, .written, .duplicate] := by
  have done : pairSpace.offerEach .keep (utf8 "out") sampleOffers =
      (.ok [.kept, .written, .duplicate],
        (pairSpace.offerEach .keep (utf8 "out") sampleOffers).2) :=
    Prod.ext (by decide +kernel) rfl
  have opens : pairSpace.disk.Opens (utf8 "out") :=
    ⟨[utf8 "out"], by decide +kernel, by decide +kernel⟩
  obtain ⟨_, always, exchangeable⟩ :=
    offers_commute (by decide +kernel) ⟨by decide +kernel, by decide +kernel⟩ done
  obtain ⟨outcomes, made, same, _⟩ := always
    (exchangeable opens (by decide +kernel)) _ (List.reverse_perm _)
  exact ⟨outcomes, made, same⟩

/-- The way to a file above which there are more directories than are made at once. -/
def deepWay : List Bytes := utf8 "d" :: utf8 "e" :: List.replicate 999 (utf8 "e") ++ [utf8 "g"]

private theorem way_deepWay : Way (utf8 "out") deepWay := by
  have fileNames : ∀ name ∈ deepWay, FileName name := by decide +kernel
  exact ⟨fileNames, by decide +kernel, by decide +kernel, by decide +kernel⟩

theorem below_deepWay : below (utf8 "out") (join deepWay) = textAt (utf8 "out") deepWay := by
  rw [below_eq_textAt, segments_join (fun name member => (way_deepWay.fileNames name member).plain)
    (List.cons_ne_nil _ _)]

/-- The order of offers does make a difference where one of them could not be made first: a file for
which too many directories are lacking is put after one that shares the first of them, but not
before it. -/
theorem orders_differ :
    let deep : List Offer := [⟨utf8 "d/f", utf8 "1"⟩, ⟨join deepWay, utf8 "1"⟩]
    (∀ offer ∈ deep, Canonical offer.path ∧ nul ∉ offer.path) ∧ Consistent deep ∧
      (∃ after, pairSpace.offerEach .merge (utf8 "out") deep = (.ok [.written, .written], after)) ∧
      ∀ outcomes after,
        pairSpace.offerEach .merge (utf8 "out") deep.reverse ≠ (.ok outcomes, after) := by
  have opened : pairSpace.disk.locate (utf8 "out") = .ok [utf8 "out"] := by decide +kernel
  refine ⟨by decide +kernel, ⟨by decide +kernel, by decide +kernel⟩, ?_, ?_⟩
  · -- With its first directory there, the file lacks just as many as are made at once.
    have near : pairSpace.offer .merge (utf8 "out") ⟨utf8 "d/f", utf8 "1"⟩ =
        (.ok .written, (pairSpace.offer .merge (utf8 "out") ⟨utf8 "d/f", utf8 "1"⟩).2) :=
      Prod.ext (by decide +kernel) rfl
    generalize next : (pairSpace.offer .merge (utf8 "out") ⟨utf8 "d/f", utf8 "1"⟩).2 = middle
      at near
    have takes := takes_iff.mp near
    have way : Way (utf8 "out")
        ([utf8 "d"] ++ utf8 "e" :: List.replicate 999 (utf8 "e") ++ [utf8 "g"]) := way_deepWay
    obtain ⟨after, stored⟩ := (put_lacking_iff (takes.grown.locate_eq opened) way
      (by rw [← next]; decide +kernel) (by rw [← next]; decide +kernel) (utf8 "1")).mpr
      (by rw [List.length_replicate]; decide)
    have stored' : put middle.disk (below (utf8 "out") (join deepWay)) (utf8 "1") =
        (.ok (), after) := by
      rw [below_deepWay]
      exact stored
    have fresh : middle.index[join deepWay]? = none := by
      rw [takes.index_eq, noted_eq_none]
      exact ⟨rfl, by decide +kernel⟩
    have whole : middle.device.cut? (below (utf8 "out") (join deepWay)) (utf8 "1") = none := by
      rw [takes.device]
      rfl
    exact ⟨_, offerEach_cons_ok.mpr ⟨_, middle, _, takes,
      offerEach_cons_ok.mpr ⟨_, _, _, .written fresh rfl whole stored', rfl, rfl⟩, rfl⟩⟩
  · intro outcomes after done
    obtain ⟨outcome, next, others, takes, _, _⟩ := offerEach_cons_ok.mp done
    have way : Way (utf8 "out")
        ([] ++ utf8 "d" :: List.replicate 1000 (utf8 "e") ++ [utf8 "g"]) := way_deepWay
    cases takes with
    | duplicate known =>
      obtain ⟨print, recorded, _⟩ := known
      cases recorded
    | kept fresh stands => cases stands
    | @written disk _ _ _ stored =>
      rw [below_deepWay] at stored
      have few := (put_lacking_iff opened way (by decide +kernel) (by decide +kernel)
        (utf8 "1")).mp ⟨disk, stored⟩
      rw [List.length_replicate] at few
      exact absurd few (by decide)

end Output

end Unbundle
