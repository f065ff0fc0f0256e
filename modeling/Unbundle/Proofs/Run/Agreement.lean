import Unbundle.Proofs.Output.History
import Unbundle.Proofs.Run.Confinement
import Unbundle.Proofs.Run.Reconstruction

/-!
What a run knows of its output. Main statement: at every point of a run the index holds the files
that were taken first and the disk holds those that were written, and when the root was cleared
there are no others just if the root held none where its path led and none is written in part.
-/

namespace Unbundle

open Ascii Disk Unbundle.Path

namespace Workspace

variable {space begun : Workspace} {policy : OverwritePolicy} {root : Bytes}

/-- A root that is cut off by a NUL is there once it is prepared. -/
theorem stands_of_prepared {start after : Disk}
    (made : start.prepared policy root = (none, after)) (cut : nul ∈ root) :
    after.find? (after.destination root) = some .directory := by
  rcases prepared_opens made with opened | adrift
  · exact opened.destination_eq
  · exact absurd cut adrift.plain

theorem traces_of_offers (fresh : space.context.outputs = ∅)
    (ready : space.prepare policy root = (true, begun)) {offers : List Offer}
    (proper : ∀ offer ∈ offers, Canonical offer.path ∧ nul ∉ offer.path) :
    Output.Traces begun.disk (begun.disk.destination root) policy root
      (begun.output.firsts policy root offers) (begun.output.cutOffs policy root offers)
      (begun.output.offerAll policy root offers) := by
  obtain ⟨made, context⟩ := prepared_of_prepare ready
  have empty : Output.Traces begun.disk (begun.disk.destination root) policy root [] []
      begun.output := .nil (context ▸ fresh)
  exact empty.offerAll rfl (stands_of_prepared made) proper

theorem cleared_of_exact (fresh : space.context.outputs = ∅)
    (ready : space.prepare .clear root = (true, begun))
    (exactly : begun.output.Exact (begun.disk.destination root)) : space.disk.Cleared root := by
  obtain ⟨made, context⟩ := prepared_of_prepare ready
  have led := (space.disk.prepared_sameOutside .clear root).destination_eq root
  rw [made] at led
  rw [cleared_iff made, ← led]
  rintro place ⟨inner, rfl⟩
  by_contra stands
  obtain ⟨path, print, recorded, _⟩ := (exactly inner).mp stands
  rw [output, context, fresh] at recorded
  simp at recorded

theorem cutOffs_of_exact (ready : space.prepare policy root = (true, begun)) {offers : List Offer}
    (proper : ∀ offer ∈ offers, Canonical offer.path ∧ nul ∉ offer.path)
    (exactly : ∀ done, done <+: offers →
      (begun.output.offerAll policy root done).Exact (begun.disk.destination root)) :
    begun.output.cutOffs policy root offers = [] := by
  have stands := stands_of_prepared (prepared_of_prepare ready).1
  apply Output.cutOffs_eq_nil
  intro done offer part
  by_contra lacking
  obtain ⟨canonical, plain⟩ := proper offer (part.subset (by simp))
  have grown := begun.output.offerAll_grown policy root done
  have led := grown.destination_eq root
  have after := exactly _ part
  rw [Output.offerAll_append] at after
  refine Output.not_exact_of_cut canonical plain (fun cut => ?_) lacking (led ▸ after)
  rw [led]
  exact grown.directory _ (stands cut)

/-- At every point of a run that started from a fresh index, the index and the disk agree on what was
taken first, and what was written by then stays to the end. An offer that fails leaves the index as
it is, and the files too unless its own is written in part. The files below a cleared root are those
of the index just when none was left where the path of the root leads, as is always so when that
path has no step back, and none is written in part. -/
theorem outputs_agree (fresh : space.context.outputs = ∅)
    (ready : space.prepare policy root = (true, begun)) {proceeds : Bool}
    {packages : List Package}
    (plain : ∀ offer ∈ begun.queueOffers policy root proceeds packages, nul ∉ offer.path) :
    (begun.unpackQueue policy root proceeds packages).2.2.output =
        begun.output.offerAll policy root
          (begun.queueOffers policy root proceeds packages) ∧
      (∀ done more, done ++ more <+: begun.queueOffers policy root proceeds packages →
        Output.Agrees root (begun.output.firsts policy root done)
            (begun.output.offerAll policy root done) ∧
          ∀ first ∈ begun.output.firsts policy root done, first.2 = .written →
            (begun.output.offerAll policy root (done ++ more)).disk.fileAt?
              (below root first.1.path) = some first.1.content) ∧
      (∀ done offer failure,
        done ++ [offer] <+: begun.queueOffers policy root proceeds packages →
        ((begun.output.offerAll policy root done).offer policy root offer).1 = .error failure →
          (begun.output.offerAll policy root (done ++ [offer])).index =
              (begun.output.offerAll policy root done).index ∧
            ∀ place, (begun.output.offerAll policy root (done ++ [offer])).disk.file? place =
              if failure.isCut ∧
                  place = begun.disk.destination root ++ segments offer.path then
                some (begun.platform.device.taken (below root offer.path) offer.content)
              else (begun.output.offerAll policy root done).disk.file? place) ∧
      (policy = .clear →
        ((∀ done, done <+: begun.queueOffers policy root proceeds packages →
            (begun.output.offerAll policy root done).Exact (begun.disk.destination root)) ↔
          space.disk.Cleared root ∧
            begun.output.cutOffs policy root
              (begun.queueOffers policy root proceeds packages) = []) ∧
        (up ∉ names (Bytes.untilNul root) →
          begun.disk.find? begun.disk.current = some .directory → space.disk.Cleared root)) := by
  have proper : ∀ offer ∈ begun.queueOffers policy root proceeds packages,
      Canonical offer.path ∧ nul ∉ offer.path :=
    fun offer listed => ⟨canonical_queueOffers listed, plain offer listed⟩
  have traces {offers : List Offer}
      (part : offers <+: begun.queueOffers policy root proceeds packages) :
      Output.Traces begun.disk (begun.disk.destination root) policy root
        (begun.output.firsts policy root offers) (begun.output.cutOffs policy root offers)
        (begun.output.offerAll policy root offers) :=
    traces_of_offers fresh ready fun offer member => proper offer (part.subset member)
  obtain ⟨made, _⟩ := prepared_of_prepare ready
  refine ⟨(begun.unpackQueue_output policy root proceeds packages).1, ?_, ?_, ?_⟩
  · intro done more part
    refine ⟨(traces ((List.prefix_append done more).trans part)).toAgrees, ?_⟩
    intro first member
    apply (traces part).stored first
    rw [Output.firsts_append]
    exact List.mem_append_left _ member
  · intro done offer failure part failed
    obtain ⟨canonical, plain⟩ := proper offer (part.subset (by simp))
    have grown := begun.output.offerAll_grown policy root done
    have led := grown.destination_eq root
    have same := begun.output.offerAll_device policy root done
    rw [Output.offerAll_append]
    have ended := Output.offer_error canonical plain
      (fun cut => led ▸ grown.directory _ (stands_of_prepared made cut)) failed
    rwa [led, same] at ended
  · rintro rfl
    constructor
    · constructor
      · intro exactly
        exact ⟨cleared_of_exact fresh ready (exactly [] List.nil_prefix),
          cutOffs_of_exact ready proper exactly⟩
      · rintro ⟨cleared, uncut⟩ done part
        have traced := traces part
        rw [Output.cutOffs_of_prefix uncut part] at traced
        apply traced.exact_of_vacant (by decide)
        have led := (space.disk.prepared_sameOutside .clear root).destination_eq root
        rw [made] at led
        rw [led]
        exact (cleared_iff made).mp cleared
    · intro down stands
      rcases prepared_opens made with opened | adrift
      · exact cleared_of_down made opened down
      · exact absurd stands adrift.gone

/-- Two packages are unpacked in the place of an old file. -/
theorem outputs_agree_sample :
    (((sampleSpace sampleShipments).prepare .clear (utf8 "out")).2.unpackQueue .clear (utf8 "out")
        true [⟨utf8 "in/a.wxapkg", .subpackage⟩, ⟨utf8 "in/b.wxapkg", .subpackage⟩]).2.2.output.Exact
      [utf8 "out"] := by
  have ready : (sampleSpace sampleShipments).prepare .clear (utf8 "out") =
      (true, ((sampleSpace sampleShipments).prepare .clear (utf8 "out")).2) :=
    Prod.ext (by decide +kernel) rfl
  have plain : ∀ offer ∈ ((sampleSpace sampleShipments).prepare .clear (utf8 "out")).2.queueOffers
      .clear (utf8 "out") true
      [⟨utf8 "in/a.wxapkg", .subpackage⟩, ⟨utf8 "in/b.wxapkg", .subpackage⟩],
      nul ∉ offer.path := by
    decide +kernel
  have led : ((sampleSpace sampleShipments).prepare .clear (utf8 "out")).2.disk.destination
      (utf8 "out") = [utf8 "out"] := by decide +kernel
  obtain ⟨final, _, _, cleared⟩ := outputs_agree rfl ready plain
  obtain ⟨exactly, down⟩ := cleared rfl
  rw [final, ← led]
  exact exactly.mpr ⟨down (by decide +kernel) (by decide +kernel), by decide +kernel⟩ _
    List.prefix_rfl

/-- A root that is reached by a step back out of a directory that is yet to be made is not cleared:
a file is left there that the index does not know. -/
theorem unknown_file_left :
    ((sampleSpace (sampleShipments.take 1)).unpack .clear (utf8 "x/../out") (utf8 "in")).1.ok =
        true ∧
      ((sampleSpace (sampleShipments.take 1)).unpack .clear (utf8 "x/../out")
          (utf8 "in")).2.disk.file? [utf8 "out", utf8 "old"] = some (utf8 "old") ∧
      ((sampleSpace (sampleShipments.take 1)).unpack .clear (utf8 "x/../out")
          (utf8 "in")).2.context.outputs[utf8 "old"]? = none := by
  decide +kernel

end Workspace

end Unbundle
