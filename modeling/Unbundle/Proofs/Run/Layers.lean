import Unbundle.Proofs.Output.Cut
import Unbundle.Proofs.Run.Confinement
import Unbundle.Proofs.Run.Preparation

/-!
Which files of a run come to lie over each other. Main statement: two files that a run has written
are one file on the disk just if their paths agree up to the first NUL, and the one written last
stands there. So paths without a NUL never share a file, and a second content for one of them
collides.
-/

namespace Unbundle

open Ascii Disk Unbundle.Path

namespace Output.Lays

variable {start : Disk} {home : Place} {root : Bytes} {written laid : List Offer} {output : Output}
  {first second offer : Offer} {policy : OverwritePolicy}

theorem destination_eq_iff (lays : Lays start home root written laid output)
    (member : first ∈ laid) (member' : second ∈ laid) :
    output.disk.destination (below root first.path) =
        output.disk.destination (below root second.path) ↔
      Bytes.untilNul first.path = Bytes.untilNul second.path := by
  rw [lays.leads first member, lays.leads second member', Offer.seen_eq_iff]

/-- Nothing is written below a root that is cut off itself. -/
theorem uncut (lays : Lays start home root written laid output) (led : start.destination root = home)
    (canonical : Canonical first.path) (member : first ∈ laid) : nul ∉ root := by
  intro cut
  have arrived := lays.leads first member
  rw [destination, untilNul_below cut canonical.head?_ne_slash, lays.grown.current] at arrived
  have same : home = home ++ segments (Bytes.untilNul first.path) := led.symm.trans arrived
  exact segments_ne_nil _ (List.append_right_eq_self.mp same.symm)

/-- An offer for the file of an earlier one has its path if neither path has a NUL, and then its
content is compared. -/
theorem offer_over (lays : Lays start home root written laid output)
    (led : start.destination root = home) (canonical : ∀ offer ∈ written, Canonical offer.path)
    (proper : Canonical offer.path) (plain : nul ∉ offer.path) (member : first ∈ written)
    (plain' : nul ∉ first.path)
    (same : output.disk.destination (below root offer.path) =
      output.disk.destination (below root first.path)) :
    offer.path = first.path ∧
      (output.offer policy root offer).1 =
        if (Fingerprint.ofContent first.content).agrees (.ofContent offer.content) then
          .ok .duplicate
        else .error (.collision offer.path) := by
  have uncut := lays.uncut led (canonical first member) (lays.whole member)
  rw [destination_canonical _ uncut proper plain,
    destination_canonical _ uncut (canonical first member) plain'] at same
  have path : offer.path = first.path := by
    rw [← join_segments offer.path, List.append_cancel_left same, join_segments]
  refine ⟨path, ?_⟩
  have known := lays.known first member
  rw [← path] at known
  rw [Output.offer, Output.write, known]
  by_cases agree : (Fingerprint.ofContent first.content).agrees (.ofContent offer.content) = true
  · rw [if_pos agree]
    dsimp only
    rw [if_pos agree]
  · rw [if_neg agree]
    dsimp only
    rw [if_neg agree]

end Output.Lays

namespace Workspace

variable {space begun : Workspace} {policy : OverwritePolicy} {root : Bytes}

theorem opens_of_prepare (ready : space.prepare policy root = (true, begun)) :
    begun.disk.Starts root → begun.disk.Opens root := by
  obtain ⟨middle, made⟩ := made_of_prepared (prepared_of_prepare ready).1
  exact makeDirectories_starts made

/-- At every point of a run, the files that it has written, in whole or in part, lie where their
paths lead up to the first NUL, and each place holds the last one that came to lie there. Two of them
are one file just if their paths agree up to the first NUL. An offer for the file of one that was
written whole has its path if neither has a NUL, and then it is a duplicate or collides. -/
theorem written_places (ready : space.prepare policy root = (true, begun)) (proceeds : Bool)
    (packages : List Package) :
    (begun.unpackQueue policy root proceeds packages).2.2.output =
        begun.output.offerAll policy root (begun.queueOffers policy root proceeds packages) ∧
      ∀ done, done <+: begun.queueOffers policy root proceeds packages →
        let written := begun.output.written policy root done
        let laid := begun.output.laid policy root done
        let output := begun.output.offerAll policy root done
        Output.Lays begun.disk (begun.disk.destination root) root written laid output ∧
          (∀ first ∈ laid, ∀ second ∈ laid,
            output.disk.destination (below root first.path) =
                output.disk.destination (below root second.path) ↔
              Bytes.untilNul first.path = Bytes.untilNul second.path) ∧
          (∀ first ∈ laid, ∀ second ∈ laid, nul ∉ first.path → nul ∉ second.path →
            first.path ≠ second.path →
              output.disk.destination (below root first.path) ≠
                output.disk.destination (below root second.path)) ∧
          ∀ offer, done ++ [offer] <+: begun.queueOffers policy root proceeds packages →
            nul ∉ offer.path → ∀ first ∈ written, nul ∉ first.path →
              output.disk.destination (below root offer.path) =
                output.disk.destination (below root first.path) →
              offer.path = first.path ∧
                (output.offer policy root offer).1 =
                  if (Fingerprint.ofContent first.content).agrees (.ofContent offer.content) then
                    .ok .duplicate
                  else .error (.collision offer.path) := by
  refine ⟨(begun.unpackQueue_output policy root proceeds packages).1, ?_⟩
  intro done part
  have canonical : ∀ offer ∈ done, Canonical offer.path :=
    fun offer member => canonical_queueOffers (part.subset member)
  have lays := (Output.Lays.nil begun.output).offerAll rfl (opens_of_prepare ready) policy canonical
  rw [List.nil_append, List.nil_append] at lays
  refine ⟨lays, fun first member second member' => lays.destination_eq_iff member member', ?_, ?_⟩
  · intro first member second member' plain plain' different same
    have cut := (lays.destination_eq_iff member member').mp same
    rw [Bytes.untilNul_eq_self plain, Bytes.untilNul_eq_self plain'] at cut
    exact different cut
  · intro offer next plain first member plain' same
    have listed : offer ∈ begun.queueOffers policy root proceeds packages :=
      next.subset (List.mem_append_right done (List.mem_singleton_self offer))
    exact lays.offer_over rfl (fun offer wrote => canonical offer (begun.output.mem_of_written wrote))
      (canonical_queueOffers listed) plain member plain' same

/-- A package with two files whose paths the system cuts to the same. -/
def cutFiles : List Container.File :=
  [⟨utf8 "a" ++ [0] ++ utf8 "b", utf8 "x"⟩, ⟨utf8 "a" ++ [0] ++ utf8 "c", utf8 "y"⟩]

/-- A disk with packages and nothing else. -/
def packagesSpace (packages : List (Bytes × List Container.File)) : Workspace where
  disk := packages.foldl (fun disk (path, files) =>
    (Output.put disk path (Container.encode files)).2) Disk.empty

def cutSpace : Workspace := packagesSpace [(utf8 "p", cutFiles)]

def cutRun : Workspace := (cutSpace.prepare .merge (utf8 "out")).2

def cutQueue : List Package := [⟨utf8 "p", .subpackage⟩]

theorem written_places_sample :
    cutSpace.prepare .merge (utf8 "out") = (true, cutRun) ∧
      ∃ first ∈ cutRun.output.written .merge (utf8 "out")
          (cutRun.queueOffers .merge (utf8 "out") true cutQueue),
        ∃ second ∈ cutRun.output.written .merge (utf8 "out")
            (cutRun.queueOffers .merge (utf8 "out") true cutQueue),
          first ≠ second ∧
            (cutRun.unpackQueue .merge (utf8 "out") true cutQueue).2.2.disk.destination
                (below (utf8 "out") first.path) =
              (cutRun.unpackQueue .merge (utf8 "out") true cutQueue).2.2.disk.destination
                (below (utf8 "out") second.path) := by
  have ready : cutSpace.prepare .merge (utf8 "out") = (true, cutRun) :=
    Prod.ext (by decide +kernel) rfl
  have laid : cutRun.output.laid .merge (utf8 "out")
      (cutRun.queueOffers .merge (utf8 "out") true cutQueue) =
        cutFiles.map fun file => ⟨file.name, file.content⟩ := by
    decide +kernel
  have written : cutRun.output.written .merge (utf8 "out")
      (cutRun.queueOffers .merge (utf8 "out") true cutQueue) =
        cutFiles.map fun file => ⟨file.name, file.content⟩ := by
    decide +kernel
  obtain ⟨final, points⟩ := written_places ready true cutQueue
  obtain ⟨_, same, _, _⟩ := points _ List.prefix_rfl
  have ends : (cutRun.unpackQueue .merge (utf8 "out") true cutQueue).2.2.disk =
      (cutRun.output.offerAll .merge (utf8 "out")
        (cutRun.queueOffers .merge (utf8 "out") true cutQueue)).disk :=
    congrArg Output.disk final
  rw [laid] at same
  rw [written]
  rw [ends]
  exact ⟨ready, _, List.mem_cons_self, _, List.mem_cons_of_mem _ List.mem_cons_self, by decide,
    (same _ List.mem_cons_self _ (List.mem_cons_of_mem _ List.mem_cons_self)).mpr (by decide)⟩

/-- Both files are written, without a collision, and the second one stands in the place of both. -/
theorem written_over :
    (cutSpace.unpack .merge (utf8 "out") (utf8 "p")).1.ok = true ∧
      (cutSpace.unpack .merge (utf8 "out") (utf8 "p")).1.packages.map PackageReport.written = [2] ∧
      (cutSpace.unpack .merge (utf8 "out") (utf8 "p")).2.disk.file? [utf8 "out", utf8 "a"] =
        some (utf8 "y") := by
  decide +kernel

end Workspace

end Unbundle
