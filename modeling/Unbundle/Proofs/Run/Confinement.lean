import Unbundle.Proofs.Bundle.Modules
import Unbundle.Proofs.Container.Layout
import Unbundle.Proofs.Ledger.Documented
import Unbundle.Proofs.Ledger.Places
import Unbundle.Proofs.Run.AppConfig
import Unbundle.Proofs.Run.Ending

/-!
Where a run can write. Main statement: whatever its packages hold, a run offers canonical paths
only, so it touches no file outside its output root but those of its ledger.
-/

namespace Unbundle

open Ascii Disk

theorem Container.canonical_of_parse {limit : Nat} {bytes : Bytes} {entries : List Container.Entry}
    (accepted : parse limit bytes = .ok entries) {entry : Container.Entry}
    (member : entry ∈ entries) : Path.Canonical entry.path := by
  obtain ⟨_, located⟩ := (parse_ok_iff limit bytes entries).mp accepted
  have image : some entry ∈ (records bytes).map (Record.located? (14 + wordAt bytes 1)) := by
    rw [located]
    exact List.mem_map_of_mem member
  obtain ⟨record, _, found⟩ := List.mem_map.mp image
  obtain ⟨path, canonical, rfl⟩ := Option.map_eq_some_iff.mp found
  exact Path.canonical_of_canonical? canonical

namespace Plan

variable {offer : Offer}

private theorem mem_offers {plan : List Action} :
    offer ∈ offers plan ↔ ∃ origin, Action.write origin offer.path offer.content ∈ plan := by
  constructor
  · intro member
    obtain ⟨action, planned, offered⟩ := List.mem_filterMap.mp member
    cases action with
    | write origin path content =>
      cases offered
      exact ⟨origin, planned⟩
    | complain text => cases offered
    | warn source message => cases offered
    | register record => cases offered
  · rintro ⟨origin, planned⟩
    exact List.mem_filterMap.mpr ⟨_, planned, rfl⟩

private theorem canonical_ofModule {source : Bytes} {record : ScriptModule}
    (canonical : Path.Canonical record.path) (member : offer ∈ offers (ofModule source record)) :
    Path.Canonical offer.path := by
  obtain ⟨origin, planned⟩ := mem_offers.mp member
  rw [ofModule, List.mem_append] at planned
  rcases planned with warned | made
  · by_cases truncated : record.truncated = true
    · rw [if_pos truncated] at warned
      cases List.mem_singleton.mp warned
    · rw [if_neg truncated] at warned
      cases warned
  · rcases List.mem_cons.mp made with same | registered
    · injection same with _ path _
      rw [path, ScriptModule.outputPath]
      cases record.form with
      | source => exact canonical
      | bytecode => exact canonical.append (by decide +kernel) (by decide +kernel)
    · cases List.mem_singleton.mp registered

private theorem canonical_ofBundle {names : List Bytes} {source path text : Bytes}
    (canonical : Path.Canonical path) (member : offer ∈ offers (ofBundle names source path text)) :
    Path.Canonical offer.path := by
  obtain ⟨origin, planned⟩ := mem_offers.mp member
  rw [ofBundle] at planned
  by_cases fallback : (Bundle.split names text).fallback = true
  · rw [if_pos fallback] at planned
    rcases List.mem_cons.mp planned with same | planned
    · cases same
    · have same := List.mem_singleton.mp planned
      injection same with _ path _
      rwa [path]
  · rw [if_neg fallback, List.mem_append] at planned
    rcases planned with warned | made
    · cases skipped : (Bundle.split names text).skipped.filterMap Bundle.Item.defect? with
      | nil =>
        rw [skipped] at warned
        cases warned
      | cons first others =>
        rw [skipped] at warned
        cases List.mem_singleton.mp warned
    · obtain ⟨record, recorded, made⟩ := List.mem_flatMap.mp made
      exact canonical_ofModule (Bundle.canonical_of_mem_modules recorded)
        (mem_offers.mpr ⟨origin, made⟩)

private theorem canonical_ofConfig {json : Json.Library} {source text : Bytes} {hasCommon : Bool}
    (member : offer ∈ offers (ofConfig json source hasCommon text)) : Path.Canonical offer.path := by
  obtain ⟨origin, planned⟩ := mem_offers.mp member
  rw [ofConfig] at planned
  cases split : AppConfig.split text json with
  | error defect =>
    rw [split] at planned
    rcases List.mem_cons.mp planned with same | planned
    · cases same
    · cases List.mem_singleton.mp planned
  | ok files =>
    rw [split] at planned
    obtain ⟨file, kept, same⟩ := List.mem_map.mp planned
    injection same with _ path _
    rw [← path]
    exact AppConfig.canonical_of_split split (List.mem_filter.mp kept).1

/-- All files that a package asks for have canonical paths, where they come from being all one. -/
theorem canonical_ofEntries {json : Json.Library} {settings : Settings} {package bytes : Bytes}
    {entries : List Container.Entry} (canonical : ∀ entry ∈ entries, Path.Canonical entry.path)
    (member : offer ∈ offers (ofEntries json settings package bytes entries)) :
    Path.Canonical offer.path := by
  obtain ⟨origin, planned⟩ := mem_offers.mp member
  obtain ⟨entry, listed, planned⟩ := List.mem_flatMap.mp planned
  rw [ofEntry] at planned
  by_cases bundle : settings.isBundle entry = true
  · rw [if_pos bundle] at planned
    exact canonical_ofBundle (canonical entry listed) (mem_offers.mpr ⟨origin, planned⟩)
  rw [if_neg bundle] at planned
  rcases List.mem_cons.mp planned with same | configured
  · injection same with _ path _
    rw [path]
    exact canonical entry listed
  · by_cases config : entry.path = AppConfig.fileName
    · rw [if_pos config] at configured
      exact canonical_ofConfig (mem_offers.mpr ⟨origin, configured⟩)
    · rw [if_neg config] at configured
      cases configured

end Plan

namespace Workspace

variable {space : Workspace} {policy : OverwritePolicy} {root : Bytes}

theorem canonical_of_readPackage {appId path : Bytes} {contents : Contents}
    (read : (space.readPackage appId path).1 = .ok contents) :
    ∀ entry ∈ contents.entries, Path.Canonical entry.path := by
  rw [readPackage] at read
  cases stands : space.readFile path with
  | error failure =>
    rw [stands] at read
    cases read
  | ok bytes =>
    rw [stands] at read
    dsimp only at read
    rcases opening : space.openBytes appId bytes with ⟨failure | ⟨wasSealed, clear⟩, after⟩
    · rw [opening] at read
      cases read
    · rw [opening] at read
      dsimp only at read
      cases parsed : Container.parse after.context.settings.maxEntryCount.toNat clear with
      | error defect =>
        rw [parsed] at read
        cases read
      | ok entries =>
        rw [parsed] at read
        cases read
        intro entry member
        exact Container.canonical_of_parse parsed member

theorem canonical_offersOf {package : Package} {offer : Offer}
    (member : offer ∈ space.offersOf policy root package) : Path.Canonical offer.path := by
  rw [offersOf] at member
  cases read : (space.readPackage (space.appIdOf package.path) package.path).1 with
  | error failure =>
    rw [read] at member
    cases member
  | ok contents =>
    rw [read] at member
    have planned := (Output.attempted_prefix _ _).subset member
    exact Plan.canonical_ofEntries (canonical_of_readPackage read) planned

theorem canonical_queueOffers {proceeds : Bool} {packages : List Package} {offer : Offer}
    (member : offer ∈ space.queueOffers policy root proceeds packages) :
    Path.Canonical offer.path := by
  obtain ⟨stage, _, offered⟩ := List.mem_flatMap.mp member
  exact canonical_offersOf offered

/-- Unpacking a queue only adds to the disk. -/
theorem unpackQueue_grown (space : Workspace) (policy : OverwritePolicy) (root : Bytes)
    (proceeds : Bool) (packages : List Package) :
    Grown space.disk (space.unpackQueue policy root proceeds packages).2.2.disk := by
  have grown := space.output.offerAll_grown policy root
    (space.queueOffers policy root proceeds packages)
  rwa [← (space.unpackQueue_output policy root proceeds packages).1] at grown

/-- Unpacking a queue touches no file outside the output root. -/
theorem unpackQueue_sameOutside (space : Workspace) (policy : OverwritePolicy) (root : Bytes)
    (proceeds : Bool) (packages : List Package) :
    SameOutside (space.disk.destination root <+: ·) space.disk
        (space.unpackQueue policy root proceeds packages).2.2.disk ∧
      (space.unpackQueue policy root proceeds packages).2.2.context.settings =
        space.context.settings := by
  obtain ⟨output, settings⟩ := space.unpackQueue_output policy root proceeds packages
  have written : SameOutside (space.disk.destination root <+: ·) space.disk
      (space.output.offerAll policy root
        (space.queueOffers policy root proceeds packages)).disk := by
    apply space.output.offerAll_sameOutside policy root
    intro offer member
    exact canonical_queueOffers member
  rw [← output] at written
  exact ⟨written, settings⟩

/-- The places of the files of the ledger that a run is recorded in, if it is. -/
def ledgerFiles (space : Workspace) : List Place :=
  if space.context.settings.ledgerPath = [] then []
  else space.platform.ledgers.files space.disk.current space.context.settings.ledgerPath

/-- Whether ledgers, if a run is recorded in one, are kept in no files but their own. -/
def Records (space : Workspace) : Prop :=
  space.context.settings.ledgerPath ≠ [] → space.platform.ledgers.Frames

theorem ledgerFiles_congr {other : Workspace} (settings : other.context.settings =
    space.context.settings) (platform : other.platform = space.platform)
    (current : other.disk.current = space.disk.current) : other.ledgerFiles = space.ledgerFiles := by
  rw [ledgerFiles, ledgerFiles, settings, platform, current]

theorem conclude_sameOutside {space : Workspace} (records : space.Records) (root : Bytes)
    (reports : List PackageReport) (abort : Option Bytes) :
    SameOutside (· ∈ space.ledgerFiles) space.disk (space.conclude root reports abort).2.disk := by
  have recorded : SameOutside (· ∈ space.ledgerFiles) space.disk
      (space.recordRun reports).2.disk := by
    rw [recordRun]
    by_cases absent : space.context.settings.ledgerPath = []
    · rw [if_pos absent]
      exact .refl _ space.disk
    · rw [if_neg absent, ledgerFiles, if_neg absent]
      have stored := storeRun_sameOutside (records absent) space.context.settings.ledgerPath reports
      rcases storing : space.storeRun space.context.settings.ledgerPath reports with ⟨ok, after⟩
      rw [storing] at stored
      cases ok <;> exact stored
  rw [conclude]
  rcases recording : space.recordRun reports with ⟨ok, after⟩
  rw [recording] at recorded
  dsimp only
  by_cases complete : (abort.isNone && reports.all PackageReport.ok && ok) = true
  · rw [if_pos complete]
    exact recorded
  · rw [if_neg complete]
    exact recorded

theorem canonical_offers {input : Bytes} {offer : Offer}
    (member : offer ∈ space.offers policy root input) : Path.Canonical offer.path := by
  have ran := space.ran policy root input
  generalize space.offers policy root input = offers, space.runStages policy root input = stages,
    space.unpack policy root input = result at ran member
  cases ran with
  | idle | unprepared => cases member
  | done => exact canonical_queueOffers member

private theorem unpack_sameOutside {space : Workspace} (records : space.Records)
    (policy : OverwritePolicy) (root input : Bytes) :
    SameOutside (fun place => space.disk.destination root <+: place ∨ place ∈ space.ledgerFiles)
      space.disk (space.unpack policy root input).2.disk := by
  have ran := space.ran policy root input
  generalize space.offers policy root input = offers, space.runStages policy root input = stages,
    space.unpack policy root input = result at ran ⊢
  cases ran with
  | idle => exact .refl _ space.disk
  | unprepared _ _ _ left =>
    have cleared := space.disk.prepared_sameOutside policy root
    rw [← left] at cleared
    exact cleared.mono fun place inside => .inl inside
  | @done found begun after reports stop _ _ _ prepared context platform unpacked =>
    have cleared := space.disk.prepared_sameOutside policy root
    rw [prepared] at cleared
    obtain ⟨written, kept⟩ := begun.unpackQueue_sameOutside policy root
      (space.context.settings.failurePolicy.proceeds found.inDirectory) found.queue.packages
    have relies := begun.platform_unpackQueue policy root
      (space.context.settings.failurePolicy.proceeds found.inDirectory) found.queue.packages
    rw [unpacked] at written kept relies
    rw [cleared.destination_eq] at written
    have filled := cleared.trans written
    have unmoved : after.platform = space.platform := relies.trans platform
    have known : after.context.settings = space.context.settings :=
      kept.trans (congrArg Context.settings context)
    have recorded : after.Records := by
      rw [Records, known, unmoved]
      exact records
    have concluded := conclude_sameOutside recorded root reports stop
    rw [ledgerFiles_congr known unmoved filled.1] at concluded
    apply (filled.mono fun place inside => .inl inside).trans
    exact concluded.mono fun place inside => .inr inside

/-- Without a ledger, a run touches no file outside its output root. -/
theorem unpack_sameOutside_root (plain : space.context.settings.ledgerPath = [])
    (policy : OverwritePolicy) (root input : Bytes) :
    SameOutside (space.disk.destination root <+: ·) space.disk
      (space.unpack policy root input).2.disk :=
  (unpack_sameOutside (fun recorded => absurd plain recorded) policy root input).mono
    fun _ touched => touched.resolve_right fun recorded => by
      rw [ledgerFiles, if_pos plain] at recorded
      cases recorded

end Workspace

end Unbundle
