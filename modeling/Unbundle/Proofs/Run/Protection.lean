import Unbundle.Proofs.Output.Following
import Unbundle.Proofs.Run.Inputs

/-!
What a run does to files that are not its own. Main statement: at every point of a run, however it
goes on, each file that stood before it still stands with its content if what stands is to be kept,
or if files are to be replaced and none has been opened in its place. What is kept is just what is
found there.
-/

namespace Unbundle

open Ascii Disk Unbundle.Path

/-- Whether a policy leaves a file alone that stands at a place: always, never, or as long as none
of the files that have been opened lies there. -/
def OverwritePolicy.Spares (disk : Disk) (root : Bytes) (laid : List Offer) (place : Place) :
    OverwritePolicy → Prop
  | .keep => True
  | .merge => ∀ offer ∈ laid, disk.destination (below root offer.path) ≠ place
  | .clear => False

namespace Disk

variable {disk : Disk} {policy : OverwritePolicy} {root content : Bytes} {place : Place}

/-- Preparing the output root leaves every file alone unless it is to be cleared. -/
theorem file?_prepared (leaves : policy ≠ .clear) (stands : disk.file? place = some content) :
    (disk.prepared policy root).2.file? place = some content :=
  (prepared_file_iff stands).mpr fun removes => leaves removes.1

end Disk

namespace Output

variable {output : Output} {policy : OverwritePolicy} {root content : Bytes} {place : Place}
  {offer : Offer}

theorem offer_kept_iff (fresh : output.index[offer.path]? = none) :
    (output.offer policy root offer).1 = .ok .kept ↔
      policy = .keep ∧ ∃ entry, output.disk.status (below root offer.path) = .ok entry := by
  constructor
  · intro kept
    cases keeping : output.isKept policy (below root offer.path) with
    | error problem =>
      rw [offer_refused fresh keeping] at kept
      cases kept
    | ok stands =>
      cases stands with
      | true =>
        rw [isKept] at keeping
        by_cases keeps : policy = .keep
        · rw [if_pos keeps] at keeping
          exact ⟨keeps, presence_ok keeping⟩
        · rw [if_neg keeps] at keeping
          cases keeping
      | false =>
        rcases stored : output.store (below root offer.path) offer.content with
          ⟨failure | _, disk⟩
        · rw [offer_failed fresh keeping stored] at kept
          cases kept
        · rw [offer_written fresh keeping stored] at kept
          cases kept
  · rintro ⟨rfl, entry, state⟩
    have stands : output.isKept .keep (below root offer.path) = .ok true := by
      rw [isKept, if_pos rfl, presence, state]
    rw [offer_kept fresh stands]

theorem offer_too_long (fresh : output.index[offer.path]? = none)
    (long : maxPathLength < (Bytes.untilNul (below root offer.path)).length) :
    (output.offer .keep root offer).1 =
      .error (.disk .status .nameTooLong (below root offer.path)) := by
  have nonempty : Bytes.untilNul (below root offer.path) ≠ [] := by
    intro empty
    rw [empty] at long
    cases long
  have refused : output.isKept .keep (below root offer.path) = .error .nameTooLong := by
    rw [isKept, if_pos rfl, presence, status, locate, if_neg nonempty, if_pos long]
    rfl
  rw [offer_refused fresh refused]

theorem unrecorded_offer {path : Bytes} (fresh : output.index[path]? = none)
    (other : offer.path ≠ path) : (output.offer policy root offer).2.index[path]? = none := by
  have recorded (print : Fingerprint) : (output.index.insert offer.path print)[path]? = none := by
    rw [Std.ExtTreeMap.getElem?_insert, if_neg]
    · exact fresh
    · rwa [Std.LawfulEqCmp.compare_eq_iff_eq]
  have answer := output.answers policy root offer
  generalize (output.offer policy root offer).1 = result,
    (output.offer policy root offer).2 = after at answer ⊢
  cases answer with
  | duplicate | collision | unseen | failed | cut => exact fresh
  | kept => exact recorded _
  | written => exact recorded _

private theorem unrecorded_offerAll {path : Bytes} (fresh : output.index[path]? = none)
    {offers : List Offer} (others : ∀ offer ∈ offers, offer.path ≠ path) :
    (output.offerAll policy root offers).index[path]? = none := by
  induction offers generalizing output with
  | nil => exact fresh
  | cons offer offers ih =>
    obtain ⟨other, others⟩ := List.forall_mem_cons.mp others
    exact ih (unrecorded_offer fresh other) others

theorem file?_of_spares (stands : output.disk.file? place = some content)
    (opens : output.disk.Starts root → output.disk.Opens root) {offers : List Offer}
    (canonical : ∀ offer ∈ offers, Canonical offer.path)
    (spares : policy.Spares output.disk root (output.laid policy root offers) place) :
    (output.offerAll policy root offers).disk.file? place = some content := by
  cases policy with
  | clear => exact spares.elim
  | keep => exact file?_offerAll stands opens canonical (.inl rfl)
  | merge =>
    have lays := (Lays.nil output).offerAll rfl opens .merge canonical
    rw [List.nil_append, List.nil_append] at lays
    have none : (output.laid .merge root offers).filter
        (·.seen (output.disk.destination root) = place) = [] := by
      apply List.filter_eq_nil_iff.mpr
      intro offer member same
      apply spares offer member
      rw [destination, ← lays.grown.current]
      exact (lays.leads offer member).trans (of_decide_eq_true same)
    rw [lays.last, none]
    exact stands

end Output

namespace Workspace

variable {space begun : Workspace} {policy : OverwritePolicy} {root : Bytes}

/-- The files that a run opens below its output root. -/
def laid (space : Workspace) (policy : OverwritePolicy) (root input : Bytes) : List Offer :=
  (space.prepare policy root).2.output.laid policy root (space.offers policy root input)

/-- A file that stood before a run still stands at each of its points, if the policy spares it from
the files opened by then. -/
theorem file?_of_prepare {place : Place} {content : Bytes} {offers : List Offer}
    (ready : space.disk.prepared policy root = (none, begun.disk))
    (stands : space.disk.file? place = some content)
    (canonical : ∀ offer ∈ offers, Canonical offer.path)
    (spares : policy.Spares space.disk root (begun.output.laid policy root offers) place) :
    (begun.output.offerAll policy root offers).disk.file? place = some content := by
  obtain ⟨middle, made⟩ := made_of_prepared ready
  have current := (space.disk.prepared_sameOutside policy root).1
  have leaves : policy ≠ .clear := by
    rintro rfl
    exact spares
  have left : (space.disk.prepared policy root).2.file? place = some content :=
    file?_prepared leaves stands
  rw [ready] at left current
  apply Output.file?_of_spares left (makeDirectories_starts made) canonical
  cases policy with
  | clear => exact spares
  | keep => trivial
  | merge =>
    intro offer member
    rw [destination, output, current]
    exact spares offer member

/-- Files that a run does not write itself are protected. Unless the output root is to be cleared,
preparing it leaves every file alone, and so does the whole run and each of its points whatever
becomes of the packages, but for the files in the place of which others have been opened where
they are to be replaced. A path that is offered for the first time is kept just if what stands is
to be kept and something is found there. -/
theorem run_protects (fresh : space.context.outputs = ∅)
    (unrecorded : space.context.settings.ledgerPath = []) (policy : OverwritePolicy)
    (root : Bytes) :
    (∀ place content, space.disk.file? place = some content →
      (policy ≠ .clear → (space.prepare policy root).2.disk.file? place = some content) ∧
      ∀ input, policy.Spares space.disk root (space.laid policy root input) place →
        (space.unpack policy root input).2.disk.file? place = some content) ∧
    ∀ begun, space.prepare policy root = (true, begun) → ∀ proceeds packages,
      (begun.unpackQueue policy root proceeds packages).2.2.output =
          begun.output.offerAll policy root (begun.queueOffers policy root proceeds packages) ∧
        ∀ done, done <+: begun.queueOffers policy root proceeds packages →
          let output := begun.output.offerAll policy root done
          (∀ place content, space.disk.file? place = some content →
            policy.Spares space.disk root (begun.output.laid policy root done) place →
              output.disk.file? place = some content) ∧
          ∀ offer, done ++ [offer] <+: begun.queueOffers policy root proceeds packages →
            (∀ earlier ∈ done, earlier.path ≠ offer.path) →
              ((output.offer policy root offer).1 = .ok .kept ↔
                policy = .keep ∧
                  ∃ entry, output.disk.status (below root offer.path) = .ok entry) := by
  constructor
  · intro place content stands
    constructor
    · intro leaves
      rw [(space.prepare_eq policy root).2.1]
      exact file?_prepared leaves stands
    · intro input spares
      have canonical (offer : Offer) (member : offer ∈ space.offers policy root input) :
          Canonical offer.path := canonical_offers member
      have run := runs (fun recorded => absurd unrecorded recorded) policy root input
      rw [laid] at spares
      generalize space.offers policy root input = offers at canonical spares run
      generalize space.runStages policy root input = stages at run
      generalize (space.unpack policy root input).2.disk = final at run ⊢
      cases run with
      | refused => exact stands
      | unprepared =>
        apply file?_prepared _ stands
        rintro rfl
        exact spares
      | @done begun _ proceeds packages ready same unmoved recorded =>
        have prepared : (space.prepare policy root).2.output = begun.output := by
          obtain ⟨_, disk, context⟩ := space.prepare_eq policy root
          have relies := space.platform_prepare policy root
          rw [output, output, disk, context, relies, ready, same, unmoved]
        rw [prepared] at spares
        have kept := file?_of_prepare ready stands canonical spares
        rw [← (begun.unpackQueue_output policy root proceeds packages).1] at kept
        have outside : place ∉ space.ledgerFiles := by
          rw [ledgerFiles, if_pos unrecorded]
          exact List.not_mem_nil
        exact (recorded.2 place outside).trans kept
  · intro begun ready proceeds packages
    refine ⟨(begun.unpackQueue_output policy root proceeds packages).1, fun done part => ?_⟩
    obtain ⟨prepared, context⟩ := prepared_of_prepare ready
    constructor
    · intro place content stands spares
      apply file?_of_prepare prepared stands _ spares
      exact fun offer member => canonical_queueOffers (part.subset member)
    · intro offer _ first
      apply Output.offer_kept_iff
      apply Output.unrecorded_offerAll _ first
      rw [output, context, fresh]
      exact Std.ExtTreeMap.getElem?_empty

/-- Two files in the output root, and a package with a file for the place of the first one. -/
def foreignSpace : Workspace where
  disk := [(utf8 "out/a.txt", utf8 "old"), (utf8 "out/b.txt", utf8 "own")].foldl
    (fun disk (path, content) => (Output.put disk path content).2) (inputSpace "a.txt").disk

/-- Both files stay if they are to be kept, and the second one if files are to be replaced. -/
theorem run_protects_sample :
    (foreignSpace.unpack .keep (utf8 "out") (utf8 "in")).2.disk.file?
        [utf8 "out", utf8 "a.txt"] = some (utf8 "old") ∧
      (foreignSpace.unpack .merge (utf8 "out") (utf8 "in")).2.disk.file?
        [utf8 "out", utf8 "b.txt"] = some (utf8 "own") ∧
      ((foreignSpace.prepare .keep (utf8 "out")).2.output.offer .keep (utf8 "out")
        ⟨utf8 "a.txt", utf8 "x"⟩).1 = .ok .kept := by
  have stands : foreignSpace.disk.file? [utf8 "out", utf8 "a.txt"] = some (utf8 "old") ∧
      foreignSpace.disk.file? [utf8 "out", utf8 "b.txt"] = some (utf8 "own") := by
    decide +kernel
  have spares : OverwritePolicy.merge.Spares foreignSpace.disk (utf8 "out")
      (foreignSpace.laid .merge (utf8 "out") (utf8 "in")) [utf8 "out", utf8 "b.txt"] := by
    rw [OverwritePolicy.Spares]
    decide +kernel
  have ready : foreignSpace.prepare .keep (utf8 "out") =
      (true, (foreignSpace.prepare .keep (utf8 "out")).2) :=
    Prod.ext (by decide +kernel) rfl
  have fresh : foreignSpace.context.outputs = ∅ := rfl
  obtain ⟨kept, runs⟩ := run_protects fresh rfl .keep (utf8 "out")
  obtain ⟨merged, _⟩ := run_protects fresh rfl .merge (utf8 "out")
  obtain ⟨_, points⟩ := runs _ ready true [⟨utf8 "in/app.wxapkg", .main⟩]
  have first := (points [] List.nil_prefix).2 ⟨utf8 "a.txt", utf8 "x"⟩ (by decide +kernel) nofun
  refine ⟨(kept _ _ stands.1).2 _ trivial, (merged _ _ stands.2).2 _ spares, first.mpr ⟨rfl, ?_⟩⟩
  exact ⟨.file (utf8 "old"), by decide +kernel⟩

/-- The path of the output root with slashes behind it. -/
def trailing (count : Nat) : Bytes := utf8 "out" ++ List.replicate count slash

variable {count : Nat}

private theorem nul_notMem_trailing : nul ∉ trailing count := by
  rw [trailing, List.mem_append, not_or, List.mem_replicate]
  exact ⟨by decide, fun both => absurd both.2 (by decide)⟩

private theorem names_trailing : names (trailing count) = [utf8 "out"] := by
  rw [trailing, names_append_slashes _ fun b member => (List.mem_replicate.mp member).2]
  decide

private theorem length_trailing : (trailing count).length = count + 3 := by
  rw [trailing, List.length_append, List.length_replicate, Nat.add_comm]
  rfl

private theorem destination_trailing :
    foreignSpace.disk.destination (trailing count) = [utf8 "out"] := by
  have relative : isAbsolute (trailing count) = false := rfl
  rw [destination, Bytes.untilNul_eq_self nul_notMem_trailing, names_trailing, relative]
  decide +kernel

private theorem opens_trailing (short : count + 3 ≤ maxPathLength) :
    foreignSpace.disk.Opens (trailing count) := by
  refine ⟨[utf8 "out"], ?_, by decide +kernel⟩
  have relative : isAbsolute (trailing count) = false := rfl
  have nonempty : trailing count ≠ [] := List.cons_ne_nil _ _
  rw [locate, Bytes.untilNul_eq_self nul_notMem_trailing, if_neg nonempty, length_trailing,
    if_neg (Nat.not_lt.mpr short), names_trailing, relative]
  decide +kernel

theorem below_trailing {name : Bytes} (relative : name.head? ≠ some slash) :
    Path.below (trailing (count + 1)) name = trailing (count + 1) ++ name := by
  have ends : lastSegment (trailing (count + 1)) = [] := by
    rw [trailing, List.replicate_succ', ← List.append_assoc, lastSegment_concat_slash]
  rw [Path.below, if_neg relative, if_pos ends]

/-- What exists is not kept where the system does not take its path: it is not found there. -/
theorem existing_not_kept :
    (foreignSpace.prepare .keep (trailing 4088)).1 = true ∧
      (foreignSpace.prepare .keep (trailing 4088)).2.disk.destination
          (Path.below (trailing 4088) (utf8 "a.txt")) = [utf8 "out", utf8 "a.txt"] ∧
      (foreignSpace.prepare .keep (trailing 4088)).2.disk.file? [utf8 "out", utf8 "a.txt"] =
        some (utf8 "old") ∧
      ((foreignSpace.prepare .keep (trailing 4088)).2.output.offer .keep (trailing 4088)
          ⟨utf8 "a.txt", utf8 "x"⟩).1 =
        .error (.disk .status .nameTooLong (Path.below (trailing 4088) (utf8 "a.txt"))) := by
  have made := (@opens_trailing 4088 (by decide)).makeDirectories_eq
  have ready : foreignSpace.prepare .keep (trailing 4088) = (true, foreignSpace) := by
    rw [prepare.eq_def]
    dsimp only
    rw [makeRoot, made]
  rw [ready]
  refine ⟨rfl, ?_, by decide +kernel, ?_⟩
  · rw [destination_canonical _ nul_notMem_trailing (by decide +kernel) (by decide +kernel),
      destination_trailing]
    rfl
  · apply Output.offer_too_long rfl
    rw [below_trailing (by decide), Bytes.untilNul_plain nul_notMem_trailing, List.length_append,
      length_trailing]
    decide

end Workspace

end Unbundle
