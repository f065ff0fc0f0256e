import Unbundle.Proofs.Output.Again

namespace Unbundle

open Ascii Disk Unbundle.Path

/-- Two attempts that both go well or both fail, for a collision or not. -/
inductive SameEnd {α β : Type} : Except Failure α → Except Failure β → Prop where
  | ok (done : α) (done' : β) : SameEnd (.ok done) (.ok done')
  | error {failure failure' : Failure} (same : failure'.isCollision = failure.isCollision) :
      SameEnd (.error failure) (.error failure')

namespace SameEnd

variable {α β γ : Type} {first : Except Failure α} {second : Except Failure β}
  {third : Except Failure γ}

theorem symm (same : SameEnd first second) : SameEnd second first := by
  cases same with
  | ok done done' => exact .ok done' done
  | error same => exact .error same.symm

theorem trans (same : SameEnd first second) (same' : SameEnd second third) :
    SameEnd first third := by
  cases same with
  | ok done done' =>
    cases same' with
    | ok _ done'' => exact .ok done done''
  | error same =>
    cases same' with
    | error same' => exact .error (same'.trans same)

end SameEnd

namespace Output

variable {disk after final : Disk} {policy : OverwritePolicy} {root path content : Bytes}
  {output other : Output} {failure : Failure}

variable {offer : Offer}

theorem offer_refused {problem : Problem} (fresh : output.index[offer.path]? = none)
    (refused : output.isKept policy (below root offer.path) = .error problem) :
    output.offer policy root offer =
      (.error (.disk .status problem (below root offer.path)), output) := by
  rw [Output.offer, Output.write, fresh]
  dsimp only
  rw [refused]

theorem offer_kept (fresh : output.index[offer.path]? = none)
    (stands : output.isKept policy (below root offer.path) = .ok true) :
    output.offer policy root offer =
      (.ok .kept, output.record offer.path (.ofContent offer.content)) := by
  rw [Output.offer, Output.write, fresh]
  dsimp only
  rw [stands]

theorem offer_failed (fresh : output.index[offer.path]? = none)
    (free : output.isKept policy (below root offer.path) = .ok false)
    (failed : output.store (below root offer.path) offer.content = (.error failure, after)) :
    output.offer policy root offer = (.error failure, { output with disk := after }) := by
  rw [Output.offer, Output.write, fresh]
  dsimp only
  rw [free]
  dsimp only
  rw [failed]

theorem offer_written (fresh : output.index[offer.path]? = none)
    (free : output.isKept policy (below root offer.path) = .ok false)
    (done : output.store (below root offer.path) offer.content = (.ok (), after)) :
    output.offer policy root offer =
      (.ok .written, { output with disk := after }.record offer.path (.ofContent offer.content)) := by
  rw [Output.offer, Output.write, fresh]
  dsimp only
  rw [free]
  dsimp only
  rw [done]

/-- An output on its way to a final disk, and another one on a disk that has got there: it holds the
same files, each with its content of now or its content in the end. -/
structure Follows (policy : OverwritePolicy) (root : Bytes) (final : Disk) (output other : Output) :
    Prop where
  opens : output.disk.Opens root
  index : other.index = output.index
  device : other.device = output.device
  grown : Grown final other.disk
  bounded : Grown other.disk final
  file : ∀ place, other.disk.file? place = output.disk.file? place ∨
    other.disk.file? place = final.file? place
  untouched : policy = .keep → other.disk = final

namespace Follows

theorem of_final (opens : output.disk.Opens root) (index : other.index = output.index)
    (device : other.device = output.device) (same : other.disk = final) :
    Follows policy root final output other := by
  subst same
  exact ⟨opens, index, device, .refl _, .refl _, fun _ => .inr rfl, fun _ => rfl⟩

theorem record (follows : Follows policy root final output other) (path : Bytes)
    (print : Fingerprint) :
    Follows policy root final (output.record path print) (other.record path print) :=
  ⟨follows.opens, congrArg (·.insert path print) follows.index, follows.device, follows.grown,
    follows.bounded, follows.file, follows.untouched⟩

/-- In the end both disks are the same. -/
theorem disk_eq (follows : Follows policy root final output other) (ends : output.disk = final) :
    other.disk = final := by
  apply follows.grown.antisymm follows.bounded
  intro place
  rcases follows.file place with same | same
  · rw [same, ends]
  · exact same

theorem tried (follows : Follows policy root final output other) {target : Bytes}
    (failed : put output.disk target content = (.error failure, after)) :
    Follows policy root final { output with disk := after } other := by
  have grown := put_grown output.disk target content
  rw [failed] at grown
  refine ⟨grown.opens follows.opens, follows.index, follows.device, follows.grown,
    follows.bounded, ?_, follows.untouched⟩
  intro place
  rw [(put_error failed).2 place id]
  exact follows.file place

theorem replaced (follows : Follows policy root final output other) (replaces : policy ≠ .keep)
    (canonical : Canonical path)
    (done : put output.disk (below root path) content = (.ok (), after))
    (reaches : Grown after final) :
    ∃ stored, put other.disk (below root path) content = (.ok (), stored) ∧
      Follows policy root final { output with disk := after } { other with disk := stored } := by
  obtain ⟨place, stored, again, changed, same⟩ :=
    put_again follows.opens canonical done (reaches.trans follows.grown)
  have grown := put_grown output.disk (below root path) content
  have grown' := put_grown other.disk (below root path) content
  rw [done] at grown
  rw [again] at grown'
  refine ⟨stored, again, grown.opens follows.opens, follows.index, follows.device,
    follows.grown.trans grown', ?_, ?_, fun keeps => absurd keeps replaces⟩
  · refine ⟨follows.bounded.current.trans grown'.current.symm, ?_, ?_⟩
    · intro target stands
      dsimp only at stands
      rw [same] at stands
      by_cases there : target = place
      · rw [if_pos there] at stands
        cases stands
      · rw [if_neg there] at stands
        exact follows.bounded.directory target stands
    · intro target stands
      by_cases there : target = place
      · apply reaches.file
        rw [changed, if_pos there]
        exact Option.some_ne_none _
      · apply follows.bounded.file
        have unchanged := same target
        rw [if_neg there] at unchanged
        rwa [← file?_congr unchanged]
  · intro target
    dsimp only
    rw [changed]
    by_cases there : target = place
    · left
      rw [if_pos there, file?, same, if_pos there]
    · have unchanged := same target
      rw [if_neg there] at unchanged
      rw [if_neg there, file?_congr unchanged]
      exact follows.file target

theorem refused_again (follows : Follows .keep root final output other)
    (canonical : Canonical offer.path) (few : (segments offer.path).length ≤ maxDepth + 1)
    (plain : nul ∉ offer.path) (fresh : other.index[offer.path]? = none)
    (whole : other.device.cut? (below root offer.path) offer.content = none)
    (absent : output.disk.presence (below root offer.path) = .ok false)
    (failed : put output.disk (below root offer.path) offer.content = (.error failure, after))
    (reaches : Grown after final) :
    ∃ failure', other.offer .keep root offer = (.error failure', other) ∧
      failure'.isCollision = false := by
  have grown := reaches.trans follows.grown
  cases present : other.disk.presence (below root offer.path) with
  | error problem => exact ⟨_, offer_refused fresh present, rfl⟩
  | ok stands =>
    cases stands with
    | true =>
      exact absurd present (absent_again follows.opens canonical plain few absent failed grown)
    | false =>
      obtain ⟨failure', again⟩ := put_again_error follows.opens canonical few failed grown
      exact ⟨failure', offer_failed fresh present ((store_of_whole whole).trans again),
        (put_error_cases again).1.1⟩

theorem offer_keep (follows : Follows .keep root final output other)
    (canonical : Canonical offer.path) (few : (segments offer.path).length ≤ maxDepth + 1)
    (plain : nul ∉ offer.path) (fresh : output.index[offer.path]? = none)
    (whole : output.device.cut? (below root offer.path) offer.content = none)
    (reaches : Grown (output.offer .keep root offer).2.disk final) :
    SameEnd (output.offer .keep root offer).1 (other.offer .keep root offer).1 ∧
      Follows .keep root final (output.offer .keep root offer).2
        (other.offer .keep root offer).2 := by
  have base := ((output.offer_grown .keep root offer).trans reaches).trans follows.grown
  have fresh' : other.index[offer.path]? = none := by rw [follows.index, fresh]
  have same := store_of_whole whole
  rw [← follows.device] at whole
  cases present : output.isKept .keep (below root offer.path) with
  | error problem =>
    have present' : other.isKept .keep (below root offer.path) = .error problem :=
      base.presence_problem present
    rw [offer_refused fresh present, offer_refused fresh' present']
    exact ⟨.error rfl, follows⟩
  | ok stands =>
    cases stands with
    | true =>
      have present' : other.isKept .keep (below root offer.path) = .ok true :=
        base.presence_eq present
      rw [offer_kept fresh present, offer_kept fresh' present']
      exact ⟨.ok _ _, follows.record ..⟩
    | false =>
      rcases stored : put output.disk (below root offer.path) offer.content with
        ⟨failure | _, after⟩
      · rw [offer_failed fresh present (same.trans stored)] at reaches ⊢
        obtain ⟨failure', again, passed⟩ :=
          follows.refused_again canonical few plain fresh' whole present stored reaches
        rw [again]
        exact ⟨.error (by rw [passed, (put_error_cases stored).1.1]), follows.tried stored⟩
      · rw [offer_written fresh present (same.trans stored)] at reaches ⊢
        have grown := put_grown output.disk (below root offer.path) offer.content
        rw [stored] at grown
        have there := presence_of_put canonical plain
          (fun _ => follows.opens.destination_eq) stored
        have present' : other.isKept .keep (below root offer.path) = .ok true :=
          (reaches.trans follows.grown).presence_eq there
        rw [offer_kept fresh' present']
        have still : Follows .keep root final { output with disk := after } other :=
          .of_final (grown.opens follows.opens) follows.index follows.device
            (follows.untouched rfl)
        exact ⟨.ok _ _, still.record ..⟩

theorem offer_replace (follows : Follows policy root final output other)
    (replaces : policy ≠ .keep) (canonical : Canonical offer.path)
    (few : (segments offer.path).length ≤ maxDepth + 1)
    (fresh : output.index[offer.path]? = none)
    (reaches : Grown (output.offer policy root offer).2.disk final) :
    SameEnd (output.offer policy root offer).1 (other.offer policy root offer).1 ∧
      Follows policy root final (output.offer policy root offer).2
        (other.offer policy root offer).2 := by
  have fresh' : other.index[offer.path]? = none := by rw [follows.index, fresh]
  have free (output : Output) : output.isKept policy (below root offer.path) = .ok false := by
    rw [isKept, if_neg replaces]
  rcases stored : output.store (below root offer.path) offer.content with ⟨failure | _, after⟩
  · rw [offer_failed fresh (free output) stored] at reaches ⊢
    rcases store_error_cases stored with failed | ⟨rfl, lacking, done⟩
    · obtain ⟨failure', again⟩ :=
        put_again_error follows.opens canonical few failed (reaches.trans follows.grown)
      rw [offer_failed fresh' (free other) (store_of_failed (follows.device ▸ again))]
      have passed := (put_error_cases failed).1.1
      exact ⟨.error (by rw [passed, (put_error_cases again).1.1]), follows.tried failed⟩
    · obtain ⟨disk, again, still⟩ := follows.replaced replaces canonical done reaches
      rw [offer_failed fresh' (free other)
        (store_of_cut (follows.device ▸ lacking) (follows.device ▸ again))]
      exact ⟨.error rfl, still⟩
  · rw [offer_written fresh (free output) stored] at reaches ⊢
    obtain ⟨whole, done⟩ := store_ok_iff.mp stored
    obtain ⟨disk, again, still⟩ := follows.replaced replaces canonical done reaches
    rw [offer_written fresh' (free other) (store_ok_iff.mpr ⟨follows.device ▸ whole, again⟩)]
    exact ⟨.ok _ _, still.record ..⟩

theorem offered (follows : Follows policy root final output other)
    (canonical : Canonical offer.path) (few : (segments offer.path).length ≤ maxDepth + 1)
    (seen : policy = .keep → nul ∉ offer.path ∧
      output.device.cut? (below root offer.path) offer.content = none)
    (reaches : Grown (output.offer policy root offer).2.disk final) :
    SameEnd (output.offer policy root offer).1 (other.offer policy root offer).1 ∧
      Follows policy root final (output.offer policy root offer).2
        (other.offer policy root offer).2 := by
  cases recorded : output.index[offer.path]? with
  | some print =>
    rw [Output.offer, Output.offer, Output.write, Output.write, follows.index, recorded]
    dsimp only
    by_cases agrees : print.agrees (.ofContent offer.content) = true
    · rw [if_pos agrees, if_pos agrees]
      exact ⟨.ok _ _, follows⟩
    · rw [if_neg agrees, if_neg agrees]
      exact ⟨.error rfl, follows⟩
  | none =>
    by_cases keeps : policy = .keep
    · subst keeps
      exact follows.offer_keep canonical few (seen rfl).1 recorded (seen rfl).2 reaches
    · exact follows.offer_replace keeps canonical few recorded reaches

/-- Offers up to the first that fails end the same way in both outputs. -/
theorem offerEach {offers : List Offer} (follows : Follows policy root final output other)
    (canonical : ∀ offer ∈ output.attempted policy root offers, Canonical offer.path)
    (few : ∀ offer ∈ output.attempted policy root offers,
      (segments offer.path).length ≤ maxDepth + 1)
    (seen : policy = .keep → ∀ offer ∈ output.attempted policy root offers,
      nul ∉ offer.path ∧ output.device.cut? (below root offer.path) offer.content = none)
    (reaches : Grown (output.offerEach policy root offers).2.disk final) :
    SameEnd (output.offerEach policy root offers).1 (other.offerEach policy root offers).1 ∧
      Follows policy root final (output.offerEach policy root offers).2
        (other.offerEach policy root offers).2 := by
  induction offers generalizing output other with
  | nil => exact ⟨.ok [] [], follows⟩
  | cons offer offers ih =>
    rw [attempted] at canonical few seen
    have device := output.offer_device policy root offer
    obtain ⟨canonical, others⟩ := List.forall_mem_cons.mp canonical
    obtain ⟨few, fewer⟩ := List.forall_mem_cons.mp few
    have first := follows.offered canonical few fun keeps => seen keeps offer List.mem_cons_self
    rw [Output.offerEach, Output.offerEach]
    rw [Output.offerEach] at reaches
    generalize output.offer policy root offer = result, other.offer policy root offer = result'
      at first others fewer seen device reaches ⊢
    obtain ⟨failure | outcome, after⟩ := result
    · obtain ⟨ends, still⟩ := first reaches
      obtain ⟨answer, after'⟩ := result'
      cases ends with
      | error same => exact ⟨.error same, still⟩
    · dsimp only at others fewer seen device reaches first
      have reached : Grown (after.offerEach policy root offers).2.disk final := by
        generalize after.offerEach policy root offers = result at reaches ⊢
        obtain ⟨failure | outcomes, last⟩ := result <;> exact reaches
      obtain ⟨ends, still⟩ := first ((after.offerEach_grown policy root offers).trans reached)
      obtain ⟨answer, after'⟩ := result'
      cases ends with
      | ok _ outcome' =>
        obtain ⟨ends, last⟩ := ih still others fewer
          (fun keeps offer member =>
            device ▸ seen keeps offer (List.mem_cons_of_mem _ member)) reached
        dsimp only
        generalize after.offerEach policy root offers = result,
          after'.offerEach policy root offers = result' at ends last ⊢
        obtain ⟨done, last⟩ := result
        obtain ⟨done', last'⟩ := result'
        cases ends with
        | ok outcomes outcomes' => exact ⟨.ok _ _, ‹_›⟩
        | error same => exact ⟨.error same, ‹_›⟩

end Follows

end Output

end Unbundle
