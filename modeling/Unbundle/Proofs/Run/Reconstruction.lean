import Unbundle.Proofs.Run.Delivery
import Unbundle.Proofs.Run.Ending
import Unbundle.Proofs.Run.Quiet

/-!
What comes of a set of packages. Main statement: a run that clears its output root unpacks exactly
the packaged files, if the root can be replaced as a whole.
-/

namespace Unbundle

open Ascii Disk Unbundle.Path

/-- A path that the system takes below a root. -/
structure Disk.Takes (root path : Bytes) : Prop where
  plain : nul ∉ path
  short : (Path.below root path).length ≤ maxPathLength
  names : ∀ name ∈ segments path, name.length ≤ maxNameLength
  depth : (segments path).length ≤ maxDepth

theorem Disk.Takes.way {root path : Bytes} (takes : Takes root path) (stem : nul ∉ root)
    (canonical : Canonical path) : Way root (segments path) := by
  have text := below_eq_textAt root path
  constructor
  · intro name member
    obtain ⟨nonempty, proper⟩ := canonical.segment_ne member
    exact ⟨nonempty, slash_notMem member, proper, takes.names name member⟩
  · exact stem
  · obtain ⟨ending, whole, _, slashes, _⟩ := Path.below_eq root canonical.head?_ne_slash
    rw [← text, whole, List.mem_append, List.mem_append, not_or, not_or]
    exact ⟨⟨stem, fun member => absurd (slashes nul member) (by decide)⟩, takes.plain⟩
  · rw [← text]
    exact takes.short

namespace Workspace

/-- The calls of a run that only the system can make fail: preparing the output root, reading the
packages, and writing below the root. -/
structure Succeeds (space : Workspace) (root input : Bytes) (shipments : List Shipment) : Prop where
  plain : nul ∉ root
  prepared : (space.prepare .clear root).1 = true
  opened : (space.prepare .clear root).2.disk.status root = .ok .directory
  read : ∀ shipment ∈ shipments,
    (space.prepare .clear root).2.disk.fileAt? (below input shipment.name) ≠ none
  written : ∀ offer ∈ Shipment.allOffers shipments, Takes root offer.path
  unharmed : ∀ shipment ∈ shipments,
    space.platform.device.fault? (below input shipment.name) = none
  whole : space.platform.device.TakesAll root (Shipment.allOffers shipments)

/-- Whether a run that clears its output root ends well and leaves exactly the packaged files below
the root, each with the bytes that were packaged. -/
def Reconstructs (space : Workspace) (root input : Bytes) (shipments : List Shipment) : Prop :=
  (space.unpack .clear root input).1.ok = true ∧
    ∀ inner content,
      (space.unpack .clear root input).2.disk.file? (space.disk.destination root ++ inner) =
          some content ↔
        ∃ offer ∈ Shipment.allOffers shipments,
          segments offer.path = inner ∧ offer.content = content

variable {space : Workspace} {policy : OverwritePolicy} {root input : Bytes}
  {shipments : List Shipment} {start : Disk} {home : Place} {done : List Offer}

theorem unpackPackage_ok {package : Package} {shipment : Shipment}
    (fresh : space.context.settings = {}) (holds : Output.Holds start home done space.output)
    (accepted : start.Accepts root home (Shipment.allOffers shipments))
    (verbatim : Verbatim {} shipments) (replaces : policy ≠ .keep)
    (takes : space.platform.device.TakesAll root (Shipment.allOffers shipments))
    (part : done ⊆ Shipment.allOffers shipments) (member : shipment ∈ shipments)
    (stands : start.fileAt? package.path = some shipment.bytes)
    (unharmed : space.platform.device.fault? package.path = none)
    (outside : ¬home <+: start.destination package.path) :
    ∃ report after, space.unpackPackage policy root package = (.ok report, after) ∧
      report.ok = true ∧ after.context.settings = {} ∧
      Output.Holds start home (done ++ shipment.offers) after.output := by
  have still : space.disk.fileAt? package.path = some shipment.bytes := by
    apply holds.grown.fileAt?_eq stands
    apply holds.kept
    intro offer _ same
    exact outside (same ▸ offer.place_below home)
  obtain ⟨contents, read, planned⟩ :=
    readPackage_ok fresh verbatim member space.platform.json (space.appIdOf package.path) still
      unharmed
  obtain ⟨outcomes, output, made, held⟩ :=
    holds.offerEach_ok accepted replaces takes part (Shipment.offers_subset member)
  obtain ⟨changed, settings, reported⟩ := space.unpackPackage_read policy root package read
    (congrArg (Plan.ofEntries space.platform.json · package.path contents.bytes contents.entries)
      fresh)
  rw [planned, made] at changed reported
  obtain ⟨report, unpacked, good⟩ := reported outcomes rfl
  refine ⟨report, _, Prod.ext unpacked rfl, good, settings.trans fresh, ?_⟩
  rw [changed]
  exact held

theorem unpackQueue_ok {packages : List Package} (fresh : space.context.settings = {})
    (holds : Output.Holds start home done space.output)
    (accepted : start.Accepts root home (Shipment.allOffers shipments))
    (verbatim : Verbatim {} shipments) (replaces : policy ≠ .keep)
    (takes : space.platform.device.TakesAll root (Shipment.allOffers shipments))
    (part : done ⊆ Shipment.allOffers shipments)
    (unharmed : ∀ package ∈ packages, space.platform.device.fault? package.path = none)
    (found : ∀ package ∈ packages, ∃ shipment ∈ shipments,
      start.fileAt? package.path = some shipment.bytes ∧
        ¬home <+: start.destination package.path) :
    ∃ reports after final, space.unpackQueue policy root true packages = (reports, none, after) ∧
      reports.all PackageReport.ok = true ∧ Output.Holds start home final after.output ∧
      final ⊆ Shipment.allOffers shipments ∧ done ⊆ final ∧
      ∀ package ∈ packages, ∀ shipment ∈ shipments,
        start.fileAt? package.path = some shipment.bytes → shipment.offers ⊆ final := by
  induction packages generalizing space done with
  | nil => exact ⟨[], space, done, rfl, rfl, holds, part, List.Subset.refl _, nofun⟩
  | cons package packages ih =>
    obtain ⟨⟨shipment, member, stands, outside⟩, others⟩ := List.forall_mem_cons.mp found
    obtain ⟨sound, others'⟩ := List.forall_mem_cons.mp unharmed
    obtain ⟨report, middle, unpacked, good, settings, held⟩ :=
      unpackPackage_ok fresh holds accepted verbatim replaces takes part member stands sound outside
    have platform := space.platform_unpackPackage policy root package
    rw [unpacked] at platform
    change middle.platform = space.platform at platform
    rw [← platform] at takes others'
    have grew : done ++ shipment.offers ⊆ Shipment.allOffers shipments :=
      List.append_subset.mpr ⟨part, Shipment.offers_subset member⟩
    obtain ⟨reports, after, final, rest, allGood, last, within, front, covered⟩ :=
      @ih (middle.showProgress (.ofReport report)) (done ++ shipment.offers) settings held takes
        grew others' others
    obtain ⟨before, stored⟩ := List.append_subset.mp front
    refine ⟨report :: reports, after, final, ?_, ?_, last, within, before, ?_⟩
    · rw [unpackQueue_cons, unpacked]
      dsimp only [reportOf, stopOf]
      rw [rest]
    · rw [List.all_cons, good, allGood]
      rfl
    · intro other listed another present same
      rcases List.mem_cons.mp listed with rfl | listed
      · have bytes : another.bytes = shipment.bytes := Option.some.inj (same.symm.trans stands)
        rw [verbatim.offers_eq member present bytes]
        exact stored
      · exact covered other listed another present same

theorem unpackQueue_all {packages : List Package} (fresh : space.context = {})
    (begun : space.disk = start)
    (accepted : start.Accepts root home (Shipment.allOffers shipments))
    (verbatim : Verbatim {} shipments) (replaces : policy ≠ .keep)
    (takes : space.platform.device.TakesAll root (Shipment.allOffers shipments))
    (unharmed : ∀ package ∈ packages, space.platform.device.fault? package.path = none)
    (found : ∀ package ∈ packages, ∃ shipment ∈ shipments,
      start.fileAt? package.path = some shipment.bytes ∧
        ¬home <+: start.destination package.path)
    (complete : ∀ shipment ∈ shipments, ∃ package ∈ packages,
      start.fileAt? package.path = some shipment.bytes) :
    ∃ reports after, space.unpackQueue policy root true packages = (reports, none, after) ∧
      reports.all PackageReport.ok = true ∧
      Output.Holds start home (Shipment.allOffers shipments) after.output := by
  have empty : Output.Holds start home [] space.output := by
    rw [output, begun, fresh]
    exact .nil rfl
  obtain ⟨reports, after, done, unpacked, good, holds, within, _, covered⟩ :=
    unpackQueue_ok (by rw [fresh]) empty accepted verbatim replaces takes
      (List.nil_subset _) unharmed found
  refine ⟨reports, after, unpacked, good, holds.congr ?_⟩
  intro offer
  constructor
  · intro member
    obtain ⟨shipment, listed, offered⟩ := List.mem_flatMap.mp member
    obtain ⟨package, present, stands⟩ := complete shipment listed
    exact covered package present shipment listed stands offered
  · intro member
    exact within member

theorem unpack_eq (fresh : space.context = {}) (source : space.disk.status input = .ok .directory)
    (delivered : Delivered {} space.disk (space.disk.destination input) shipments)
    (ready : (space.prepare .clear root).1 = true) :
    ∃ (queue : Queue) (begun : Workspace),
      begun.disk = (space.prepare .clear root).2.disk ∧ begun.context = {} ∧
      begun.platform = space.platform ∧
      (∀ path, (∃ package ∈ queue.packages, package.path = path) ↔
        ∃ shipment ∈ shipments, below input shipment.name = path) ∧
      (space.unpack .clear root input).1.ok =
        ((begun.unpackQueue .clear root true queue.packages).2.1.isNone &&
          (begun.unpackQueue .clear root true queue.packages).1.all PackageReport.ok) ∧
      (space.unpack .clear root input).2.disk =
        (begun.unpackQueue .clear root true queue.packages).2.2.disk := by
  obtain ⟨place, located, directory⟩ := status_ok source
  obtain rfl := destination_of_locate located
  obtain ⟨queue, listed, members⟩ :=
    @Queue.mem_packages_ofDirectory {} _ _ _ located source
  have queued (path : Bytes) : (∃ package ∈ queue.packages, package.path = path) ↔
      ∃ shipment ∈ shipments, below input shipment.name = path := by
    rw [members]
    constructor
    · rintro ⟨name, stands, named, same⟩
      obtain ⟨shipment, member, rfl⟩ := delivered.complete name stands named
      exact ⟨shipment, member, same⟩
    · rintro ⟨shipment, member, same⟩
      refine ⟨shipment.name, ?_, delivered.named shipment member, same⟩
      rw [delivered.stored shipment member]
      exact nofun
  have filled : queue.packages ≠ [] := by
    obtain ⟨shipment, member⟩ := List.exists_mem_of_ne_nil _ delivered.nonempty
    obtain ⟨package, present, _⟩ := (queued _).mpr ⟨shipment, member, rfl⟩
    exact List.ne_nil_of_mem present
  have found := findPackages_ofDirectory source (show Queue.ofDirectory space.context.settings
    space.disk input = .ok queue by rw [fresh]; exact listed)
  obtain ⟨same, disk, _⟩ := space.prepare_eq .clear root
  have ran := space.ran .clear root input
  generalize space.offers .clear root input = offers, space.runStages .clear root input = stages,
    space.unpack .clear root input = result at ran ⊢
  cases ran with
  | idle idle => exact absurd (idle _ found) filled
  | @unprepared other _ _ _ _ left =>
    have stuck := ((space.log .info (modeText other)).prepare_eq .clear root).1
    rw [left] at stuck
    cases stuck.trans (same.symm.trans ready)
  | @done other begun after reports stop found' _ _ prepared context platform unpacked =>
    obtain rfl := Except.ok.inj (found.symm.trans found')
    have began : begun.context = {} := context.trans fresh
    have proceeds : space.context.settings.failurePolicy.proceeds true = true := by
      rw [fresh]
      rfl
    rw [proceeds] at unpacked
    have settings := (begun.unpackQueue_output .clear root true queue.packages).2
    rw [unpacked, began] at settings
    obtain ⟨report, quiet⟩ := conclude_quiet (by rw [settings]) root reports stop
    refine ⟨queue, begun, by rw [disk, prepared], began, platform, queued, ?_⟩
    rw [unpacked]
    exact ⟨congrArg RunReport.ok report, quiet.disk⟩

theorem compatible (verbatim : Verbatim {} shipments)
    (consistent : Consistent (Shipment.allOffers shipments))
    (succeeds : space.Succeeds root input shipments) :
    Compatible root (Shipment.allOffers shipments) := by
  constructor
  · exact consistent
  · intro offer member
    exact (succeeds.written offer member).way succeeds.plain (verbatim.canonical member)
  · intro offer member
    exact (succeeds.written offer member).depth

theorem file?_of_holds {output : Output} {offers : List Offer}
    (holds : Output.Holds start home offers output) (vacated : start.Vacated home offers)
    (inner : List Bytes) (content : Bytes) :
    output.disk.file? (home ++ inner) = some content ↔
      ∃ offer ∈ offers, segments offer.path = inner ∧ offer.content = content := by
  constructor
  · intro found
    by_cases offered : ∃ offer ∈ offers, offer.place home = home ++ inner
    · obtain ⟨offer, member, same⟩ := offered
      rw [← same, holds.stored offer member] at found
      exact ⟨offer, member, List.append_cancel_left same, Option.some.inj found⟩
    · rw [holds.kept _ fun offer member same => offered ⟨offer, member, same⟩] at found
      have stands : start.file? (home ++ inner) ≠ none := by
        rw [found]
        exact nofun
      exact absurd (vacated.file _ (List.prefix_append home inner) stands) offered
  · rintro ⟨offer, member, rfl, rfl⟩
    exact holds.stored offer member

theorem destination_package {disk : Disk} {name : Bytes} {place : Place}
    (plain : slash ∉ name ∧ nul ∉ name)
    (named : extension name = ({} : Settings).containerExtension)
    (located : disk.locate (Path.below input name) = .ok place) :
    place = disk.destination input ∨ place = disk.destination input ++ [name] := by
  have nonempty : name ≠ [] := by
    rintro rfl
    exact absurd named (by decide)
  have proper : name ≠ here ∧ name ≠ up := by
    constructor <;> rintro rfl <;> exact absurd named (by decide)
  rw [← destination_of_locate located]
  exact disk.destination_below nonempty plain proper

theorem read_package {shipment : Shipment} (source : space.disk.status input = .ok .directory)
    (delivered : Delivered {} space.disk (space.disk.destination input) shipments)
    (apart : ¬space.disk.destination root <+: space.disk.destination input ∧
      ¬space.disk.destination input <+: space.disk.destination root)
    (same : SameOutside (space.disk.destination root <+: ·) space.disk start)
    (member : shipment ∈ shipments)
    (read : start.fileAt? (Path.below input shipment.name) ≠ none) :
    start.fileAt? (Path.below input shipment.name) = some shipment.bytes ∧
      ¬space.disk.destination root <+: start.destination (Path.below input shipment.name) := by
  obtain ⟨target, located, directory⟩ := status_ok source
  obtain rfl := destination_of_locate located
  obtain ⟨content, stands⟩ := Option.ne_none_iff_exists'.mp read
  obtain ⟨led, found, _⟩ := fileAt?_eq_some.mp stands
  have place := destination_package (delivered.plain shipment member)
    (delivered.named shipment member) led
  rw [same.destination_eq input] at place
  rcases place with place | place
  · rw [place, same.2 _ apart.1, file?, directory] at found
    cases found
  · have outside := apart_concat apart shipment.name
    rw [place] at found ⊢
    rw [same.2 _ outside, delivered.stored shipment member] at found
    rw [stands, found]
    exact ⟨rfl, outside⟩

/-- What a run finds below its prepared root is there at its end, so it has to be among what is
packaged. -/
theorem vacated_of_reconstructs (fresh : space.context = {})
    (source : space.disk.status input = .ok .directory)
    (delivered : Delivered {} space.disk (space.disk.destination input) shipments)
    (ready : (space.prepare .clear root).1 = true)
    (reconstructs : space.Reconstructs root input shipments) :
    (space.prepare .clear root).2.disk.Vacated (space.disk.destination root)
      (Shipment.allOffers shipments) := by
  obtain ⟨queue, begun, disk, _, _, _, _, final⟩ := unpack_eq fresh source delivered ready
  have output := (begun.unpackQueue_output .clear root true queue.packages).1
  have grown : Grown begun.disk
      (begun.unpackQueue .clear root true queue.packages).2.2.output.disk := by
    rw [output]
    exact begun.output.offerAll_grown ..
  have exactly := reconstructs.2
  rw [final] at exactly
  rw [disk] at grown
  constructor
  · rintro place ⟨inner, rfl⟩ stands
    obtain ⟨content, found⟩ := Option.ne_none_iff_exists'.mp (grown.file _ stands)
    obtain ⟨offer, member, rfl, _⟩ := (exactly inner content).mp found
    exact ⟨offer, member, rfl⟩
  · intro offer member stands
    have found := (exactly _ _).mpr ⟨offer, member, rfl, rfl⟩
    have left : (begun.unpackQueue .clear root true queue.packages).2.2.disk.find?
        (space.disk.destination root ++ segments offer.path) = some .directory :=
      grown.directory _ stands
    rw [file?, left] at found
    cases found

theorem reconstructs_of_vacated (fresh : space.context = {})
    (source : space.disk.status input = .ok .directory)
    (delivered : Delivered {} space.disk (space.disk.destination input) shipments)
    (verbatim : Verbatim {} shipments)
    (consistent : Consistent (Shipment.allOffers shipments))
    (apart : ¬space.disk.destination root <+: space.disk.destination input ∧
      ¬space.disk.destination input <+: space.disk.destination root)
    (succeeds : space.Succeeds root input shipments)
    (vacated : (space.prepare .clear root).2.disk.Vacated (space.disk.destination root)
      (Shipment.allOffers shipments)) : space.Reconstructs root input shipments := by
  obtain ⟨queue, begun, disk, context, platform, queued, ok, final⟩ :=
    unpack_eq fresh source delivered succeeds.prepared
  have same := (space.prepare_sameOutside .clear root).1
  obtain ⟨place, opened, inside⟩ := status_ok succeeds.opened
  obtain rfl : place = space.disk.destination root := by
    rw [← destination_of_locate opened, same.destination_eq]
  have accepted : (space.prepare .clear root).2.disk.Accepts root (space.disk.destination root)
      (Shipment.allOffers shipments) :=
    ⟨opened, inside, compatible verbatim consistent succeeds, vacated.free consistent⟩
  have replaces : OverwritePolicy.clear ≠ .keep := by decide
  have stands {shipment : Shipment} (member : shipment ∈ shipments) :=
    read_package source delivered apart same member (succeeds.read shipment member)
  have found : ∀ package ∈ queue.packages, ∃ shipment ∈ shipments,
      (space.prepare .clear root).2.disk.fileAt? package.path = some shipment.bytes ∧
        ¬space.disk.destination root <+:
          (space.prepare .clear root).2.disk.destination package.path := by
    intro package present
    obtain ⟨shipment, member, path⟩ := (queued package.path).mp ⟨package, present, rfl⟩
    rw [← path]
    exact ⟨shipment, member, stands member⟩
  have complete : ∀ shipment ∈ shipments, ∃ package ∈ queue.packages,
      (space.prepare .clear root).2.disk.fileAt? package.path = some shipment.bytes := by
    intro shipment member
    obtain ⟨package, present, path⟩ := (queued _).mpr ⟨shipment, member, rfl⟩
    refine ⟨package, present, ?_⟩
    rw [path]
    exact (stands member).1
  have unharmed (package : Package) (present : package ∈ queue.packages) :
      begun.platform.device.fault? package.path = none := by
    obtain ⟨shipment, member, path⟩ := (queued package.path).mp ⟨package, present, rfl⟩
    rw [platform, ← path]
    exact succeeds.unharmed shipment member
  obtain ⟨reports, after, unpacked, good, holds⟩ :=
    unpackQueue_all context disk accepted verbatim replaces (platform ▸ succeeds.whole) unharmed
      found complete
  rw [Reconstructs, ok, final, unpacked]
  constructor
  · rw [good]
    rfl
  · intro inner content
    exact file?_of_holds holds vacated inner content

/-- A run over packages in a directory apart from its output root ends well and leaves exactly the
packaged files below the root, just when it can replace the root as a whole; and that it can
whenever the path of the root has no step back. -/
theorem unpack_reconstructs (fresh : space.context = {})
    (source : space.disk.status input = .ok .directory)
    (delivered : Delivered {} space.disk (space.disk.destination input) shipments)
    (verbatim : Verbatim {} shipments)
    (consistent : Consistent (Shipment.allOffers shipments))
    (apart : ¬space.disk.destination root <+: space.disk.destination input ∧
      ¬space.disk.destination input <+: space.disk.destination root)
    (succeeds : space.Succeeds root input shipments) :
    (space.Reconstructs root input shipments ↔
        space.disk.Replaceable root (Shipment.allOffers shipments)) ∧
      (up ∉ names root → space.Reconstructs root input shipments) := by
  obtain ⟨result, disk, _⟩ := space.prepare_eq .clear root
  have ready : space.disk.prepared .clear root =
      (none, (space.prepare .clear root).2.disk) := by
    rw [succeeds.prepared] at result
    rcases prepared : space.disk.prepared .clear root with ⟨_ | problem, start⟩
    · rw [prepared] at disk
      rw [disk]
    · rw [prepared] at result
      cases result
  have replaceable : space.Reconstructs root input shipments ↔
      space.disk.Replaceable root (Shipment.allOffers shipments) := by
    rw [replaceable_iff ready succeeds.opened]
    constructor
    · intro reconstructs
      exact vacated_of_reconstructs fresh source delivered succeeds.prepared reconstructs
    · intro vacated
      exact reconstructs_of_vacated fresh source delivered verbatim consistent apart succeeds
        vacated
  constructor
  · exact replaceable
  · intro down
    exact replaceable.mpr (replaceable_of_down succeeds.plain ready succeeds.opened down)

/-- Two packages that share a file, and what an older run has left. -/
def sampleShipments : List Shipment :=
  [⟨utf8 "a.wxapkg", [⟨utf8 "/a.txt", utf8 "hi"⟩, ⟨utf8 "d\\b.txt", []⟩]⟩,
   ⟨utf8 "b.wxapkg", [⟨utf8 "./a.txt", utf8 "hi"⟩]⟩]

/-- A disk with packages in one directory and an old file in another. -/
def sampleSpace (shipments : List Shipment) : Workspace where
  disk := (Output.put
    (shipments.foldl (fun disk shipment =>
      (Output.put disk (Path.below (utf8 "in") shipment.name) shipment.bytes).2) Disk.empty)
    (utf8 "out/old") (utf8 "old")).2

theorem unpack_reconstructs_sample :
    (sampleSpace sampleShipments).Reconstructs (utf8 "out") (utf8 "in") sampleShipments := by
  have listed : (sampleSpace sampleShipments).disk.list
      ((sampleSpace sampleShipments).disk.destination (utf8 "in")) =
        sampleShipments.map fun shipment => (shipment.name, .file shipment.bytes) := by
    decide +kernel
  have delivered : Delivered {} (sampleSpace sampleShipments).disk
      ((sampleSpace sampleShipments).disk.destination (utf8 "in")) sampleShipments := by
    constructor
    · decide
    · decide +kernel
    · decide +kernel
    · decide +kernel
    · intro name stands _
      obtain ⟨content, found⟩ := file?_ne_none.mp stands
      rw [← mem_list, listed] at found
      obtain ⟨shipment, member, same⟩ := List.mem_map.mp found
      exact ⟨shipment, member, congrArg Prod.fst same⟩
  have verbatim : Verbatim {} sampleShipments := by
    constructor
    · intro shipment member
      constructor
      · revert shipment
        decide +kernel
      · revert shipment
        decide +kernel
      · revert shipment
        decide +kernel
    · decide +kernel
    · decide +kernel
    · decide +kernel
  have consistent : Consistent (Shipment.allOffers sampleShipments) := by
    constructor
    · decide +kernel
    · decide +kernel
  have succeeds : (sampleSpace sampleShipments).Succeeds (utf8 "out") (utf8 "in")
      sampleShipments := by
    constructor
    · decide +kernel
    · decide +kernel
    · decide +kernel
    · decide +kernel
    · intro offer member
      constructor
      · revert offer
        decide +kernel
      · revert offer
        decide +kernel
      · revert offer
        decide +kernel
      · revert offer
        decide +kernel
    · exact fun _ _ => rfl
    · exact fun _ _ => rfl
  exact (unpack_reconstructs rfl (by decide +kernel) delivered verbatim consistent
    (by decide +kernel) succeeds).2 (by decide +kernel)

/-- A root that is not there until its way is made is not cleared: the run ends well, and the old
file is left. -/
theorem old_file_left :
    ((sampleSpace (sampleShipments.take 1)).unpack .clear (utf8 "x/../out") (utf8 "in")).1.ok =
        true ∧
      ((sampleSpace (sampleShipments.take 1)).unpack .clear (utf8 "x/../out")
          (utf8 "in")).2.disk.file? [utf8 "out", utf8 "old"] = some (utf8 "old") := by
  decide +kernel

end Workspace

end Unbundle
