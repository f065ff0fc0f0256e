import Mathlib.Algebra.GroupWithZero.Nat
import Mathlib.Data.List.Nodup
import Unbundle.Proofs.Bundle.Placement
import Unbundle.Proofs.Output.Taking

/-!
The numbers in the report on a package. Main statement: the files that came to something are those
of the plain entries, the verbatim bundles, the modules and the derived configuration, each of them
once, and the index grows by those that are new to it.
-/

namespace Unbundle

private theorem Outcome.count_eq_length (outcomes : List Outcome) :
    outcomes.count .written + outcomes.count .duplicate + outcomes.count .kept =
      outcomes.length := by
  induction outcomes with
  | nil => rfl
  | cons outcome outcomes ih =>
    rw [List.length_cons, ← ih]
    cases outcome <;> simp only [List.count_cons] <;> simp <;> omega

namespace Bundle

theorem countP_truncated_le (names : List Bytes) (text : Bytes) :
    (split names text).modules.countP ScriptModule.truncated ≤ 1 := by
  have placed : ∀ item ∈ scan names text, item.Placed names text := fun item => placed_of_mem_scan
  have rising : (scan names text).Pairwise Item.Before := pairwise_walk (List.suffix_refl text)
  have distinct : (scan names text).Nodup := by
    apply rising.imp
    rintro first _ before rfl
    exact Nat.lt_irrefl _ before.starts
  rw [split, List.countP_filterMap]
  cases last : (scan names text).getLast? with
  | none =>
    rw [List.getLast?_eq_none_iff.mp last]
    exact Nat.zero_le 1
  | some item =>
    refine le_trans (List.countP_mono_left ?_) (List.nodup_iff_count_le_one.mp distinct item)
    intro other member cut
    cases found : other.module? with
    | none =>
      rw [found] at cut
      cases cut
    | some record =>
      rw [found] at cut
      have ends := getLast?_of_truncated placed rising member found (by simpa using cut)
      exact beq_iff_eq.mpr (Option.some.inj (ends.symm.trans last))

end Bundle

/-- The files that a package writes beside an entry: those that it is split into, if it is the
configuration of the app. The common one is left out where the package has one itself. -/
def Container.Entry.derived (json : Json.Library) (hasCommon : Bool) (bytes : Bytes)
    (entry : Container.Entry) : List Container.File :=
  if entry.path = AppConfig.fileName then
    match AppConfig.split (entry.content bytes) json with
    | .error _ => []
    | .ok files => files.filter fun file => !(hasCommon && file.name = AppConfig.commonFileName)
  else []

theorem Container.Entry.derived_empty {json : Json.Library} {bytes text : Bytes}
    {entry : Container.Entry} (config : entry.path = AppConfig.fileName)
    (empty : json.parse (entry.content bytes) = .ok (.object []))
    (written : json.dump (.object []) = .ok text) (hasCommon : Bool) :
    entry.derived json hasCommon bytes =
      if hasCommon then [] else [⟨AppConfig.commonFileName, text⟩] := by
  have split : AppConfig.split (entry.content bytes) json =
      .ok [⟨AppConfig.commonFileName, text⟩] := by
    have common : AppConfig.common [] = .object [] := rfl
    have pages : AppConfig.pageFiles (.object []) = [] := rfl
    rw [AppConfig.split_eq_ok_iff]
    refine ⟨[], empty, ?_⟩
    rw [common, pages]
    exact .cons ⟨written, rfl⟩ .nil
  rw [derived, if_pos config, split]
  cases hasCommon <;> rfl

namespace Settings

/-- Whether an entry is a bundle that is kept as it stands. -/
def isVerbatim (settings : Settings) (bytes : Bytes) (entry : Container.Entry) : Bool :=
  settings.isBundle entry &&
    (Bundle.split settings.registrationNames (entry.content bytes)).fallback

/-- Whether an entry is a bundle that goes into its modules. -/
def isSplit (settings : Settings) (bytes : Bytes) (entry : Container.Entry) : Bool :=
  settings.isBundle entry &&
    !(Bundle.split settings.registrationNames (entry.content bytes)).fallback

private theorem countP_isBundle (settings : Settings) (bytes : Bytes)
    (entries : List Container.Entry) :
    entries.countP settings.isBundle =
      entries.countP (settings.isVerbatim bytes) + entries.countP (settings.isSplit bytes) := by
  rw [List.countP_eq_countP_filter_add entries settings.isBundle fun entry =>
    (Bundle.split settings.registrationNames (entry.content bytes)).fallback,
    List.countP_filter, List.countP_filter]
  rfl

theorem isBundle_config (settings : Settings) {entry : Container.Entry}
    (config : entry.path = AppConfig.fileName) : settings.isBundle entry = false := by
  have kind : entry.kind = .config := by
    rw [Container.Entry.kind, config]
    decide +kernel
  rw [isBundle, kind]
  rfl

private theorem derived_bundle (settings : Settings) {entry : Container.Entry}
    (bundle : settings.isBundle entry = true) (json : Json.Library) (hasCommon : Bool)
    (bytes : Bytes) : entry.derived json hasCommon bytes = [] := by
  rw [Container.Entry.derived, if_neg]
  intro config
  rw [settings.isBundle_config config] at bundle
  cases bundle

end Settings

namespace Plan

variable {json : Json.Library} {settings : Settings} {package bytes : Bytes} {hasCommon : Bool}
  {entry : Container.Entry} {entries : List Container.Entry} {plan : List Action}

/-- How many files of a plan come from an origin. -/
def countOf (origin : Origin) (plan : List Action) : Nat :=
  (plan.filterMap Action.origin?).count origin

private theorem countOf_append (origin : Origin) (first second : List Action) :
    countOf origin (first ++ second) = countOf origin first + countOf origin second := by
  rw [countOf, List.filterMap_append, List.count_append]
  rfl

theorem modules_append (first second : List Action) :
    modules (first ++ second) = modules first ++ modules second := List.filterMap_append

theorem length_offers (plan : List Action) :
    (offers plan).length =
      countOf .entry plan + countOf .fallback plan + countOf .module plan +
        countOf .config plan := by
  induction plan with
  | nil => rfl
  | cons action plan ih =>
    rw [← List.singleton_append, offers, List.filterMap_append, List.length_append, ← offers,
      ← offers, ih]
    simp only [countOf_append]
    have single : (offers [action]).length =
        countOf .entry [action] + countOf .fallback [action] + countOf .module [action] +
          countOf .config [action] := by
      cases action with
      | complain | warn | register => rfl
      | write origin path content => cases origin <;> rfl
    omega

private theorem modules_ofModule (source : Bytes) (record : ScriptModule) :
    modules (ofModule source record) = [record] := by
  rw [modules, ofModule]
  cases record.truncated <;> rfl

theorem modules_ofModules (source : Bytes) (records : List ScriptModule) :
    modules (records.flatMap (ofModule source)) = records := by
  rw [modules, List.filterMap_flatMap]
  change records.flatMap (fun record => modules (ofModule source record)) = records
  simp only [modules_ofModule, List.flatMap_singleton']

private theorem origins_ofModules (source : Bytes) (records : List ScriptModule) :
    (records.flatMap (ofModule source)).filterMap Action.origin? =
      List.replicate records.length .module := by
  induction records with
  | nil => rfl
  | cons record records ih =>
    rw [List.flatMap_cons, List.filterMap_append, ih, ofModule]
    cases record.truncated <;> rfl

/-- A warning of calls that were not understood offers and registers nothing. -/
theorem skippedWarning_eq (source : Bytes) (skipped : List CallSite.Defect) :
    (skippedWarning source skipped).filterMap Action.origin? = [] ∧
      modules (skippedWarning source skipped) = [] := by
  cases skipped <;> exact ⟨rfl, rfl⟩

private theorem modules_ofBundle (names : List Bytes) (source path text : Bytes) :
    modules (ofBundle names source path text) = (Bundle.split names text).modules := by
  rw [ofBundle]
  by_cases fallback : (Bundle.split names text).fallback = true
  · rw [if_pos fallback]
    exact (List.isEmpty_iff.mp fallback).symm
  · rw [if_neg fallback, modules_append, modules_ofModules, (skippedWarning_eq ..).2,
      List.nil_append]

private theorem origins_ofBundle {names : List Bytes} {text : Bytes}
    (fallback : (Bundle.split names text).fallback ≠ true) (source path : Bytes) :
    (ofBundle names source path text).filterMap Action.origin? =
      List.replicate (Bundle.split names text).modules.length .module := by
  rw [ofBundle, if_neg fallback, List.filterMap_append, origins_ofModules,
    (skippedWarning_eq ..).1, List.nil_append]

private theorem origins_config (files : List Container.File) :
    (files.map fun file => Action.write .config file.name file.content).filterMap Action.origin? =
      List.replicate files.length .config := by
  induction files with
  | nil => rfl
  | cons file files ih => exact congrArg (.config :: ·) ih

theorem origins_ofConfig (source : Bytes) (hasCommon : Bool)
    (config : entry.path = AppConfig.fileName) :
    (ofConfig json source hasCommon (entry.content bytes)).filterMap Action.origin? =
      List.replicate (entry.derived json hasCommon bytes).length .config := by
  rw [ofConfig, Container.Entry.derived, if_pos config]
  cases AppConfig.split (entry.content bytes) json with
  | error defect => rfl
  | ok files => exact origins_config _

/-- What a plan has to do with the entries that it was made for. -/
structure Tallies (json : Json.Library) (settings : Settings) (hasCommon : Bool) (bytes : Bytes)
    (entries : List Container.Entry) (plan : List Action) : Prop where
  entry : countOf .entry plan = entries.countP fun entry => !settings.isBundle entry
  config : countOf .config plan =
    (entries.map fun entry => (entry.derived json hasCommon bytes).length).sum
  fallback : countOf .fallback plan = entries.countP (settings.isVerbatim bytes)
  module : countOf .module plan = (modules plan).length
  none : (modules plan).length = 0 ↔ entries.countP (settings.isSplit bytes) = 0
  truncated : (modules plan).countP ScriptModule.truncated ≤
    entries.countP (settings.isSplit bytes)

private theorem tallies_nil : Tallies json settings hasCommon bytes [] [] := by
  constructor <;> simp [countOf, modules]

theorem Tallies.append {others : List Container.Entry} {more : List Action}
    (first : Tallies json settings hasCommon bytes entries plan)
    (second : Tallies json settings hasCommon bytes others more) :
    Tallies json settings hasCommon bytes (entries ++ others) (plan ++ more) := by
  have split := modules_append plan more
  constructor
  · rw [countOf_append, List.countP_append, first.entry, second.entry]
  · rw [countOf_append, List.map_append, List.sum_append, first.config, second.config]
  · rw [countOf_append, List.countP_append, first.fallback, second.fallback]
  · rw [countOf_append, split, List.length_append, first.module, second.module]
  · rw [split, List.length_append, List.countP_append, Nat.add_eq_zero_iff, Nat.add_eq_zero_iff,
      first.none, second.none]
  · rw [split, List.countP_append, List.countP_append]
    exact Nat.add_le_add first.truncated second.truncated

private theorem tallies_verbatim (verbatim : settings.isVerbatim bytes entry = true)
    (origins : plan.filterMap Action.origin? = [.fallback]) (none : modules plan = []) :
    Tallies json settings hasCommon bytes [entry] plan := by
  obtain ⟨bundle, fallback⟩ := Bool.and_eq_true_iff.mp verbatim
  have script := settings.derived_bundle bundle json hasCommon bytes
  constructor <;>
    simp [countOf, origins, none, bundle, fallback, script, verbatim, Settings.isSplit]

private theorem tallies_split (split : settings.isSplit bytes entry = true)
    (origins : plan.filterMap Action.origin? = List.replicate (modules plan).length .module)
    (some : modules plan ≠ []) (cut : (modules plan).countP ScriptModule.truncated ≤ 1) :
    Tallies json settings hasCommon bytes [entry] plan := by
  obtain ⟨bundle, fallback⟩ := Bool.and_eq_true_iff.mp split
  rw [Bool.not_eq_true'] at fallback
  have script := settings.derived_bundle bundle json hasCommon bytes
  constructor <;>
    simp [countOf, origins, bundle, fallback, script, split, some, cut, Settings.isVerbatim,
      List.count_replicate]

private theorem tallies_plain (plain : settings.isBundle entry = false)
    (origins : plan.filterMap Action.origin? =
      .entry :: List.replicate (entry.derived json hasCommon bytes).length .config)
    (none : modules plan = []) : Tallies json settings hasCommon bytes [entry] plan := by
  constructor <;>
    simp [countOf, origins, none, plain, Settings.isSplit, Settings.isVerbatim,
      List.count_replicate]

private theorem tallies_ofEntry (json : Json.Library) (settings : Settings) (package bytes : Bytes)
    (hasCommon : Bool) (entry : Container.Entry) :
    Tallies json settings hasCommon bytes [entry]
      (ofEntry json settings package hasCommon bytes entry) := by
  rw [ofEntry]
  by_cases bundle : settings.isBundle entry = true
  · rw [if_pos bundle]
    by_cases fallback :
        (Bundle.split settings.registrationNames (entry.content bytes)).fallback = true
    · rw [ofBundle, if_pos fallback]
      exact tallies_verbatim (Bool.and_eq_true_iff.mpr ⟨bundle, fallback⟩) rfl rfl
    · have split : settings.isSplit bytes entry = true :=
        Bool.and_eq_true_iff.mpr ⟨bundle, by simpa using fallback⟩
      apply tallies_split split
      · rw [modules_ofBundle, origins_ofBundle fallback]
      · rw [modules_ofBundle]
        exact fun none => fallback (List.isEmpty_iff.mpr none)
      · rw [modules_ofBundle]
        exact Bundle.countP_truncated_le ..
  · rw [if_neg bundle]
    have plain : settings.isBundle entry = false := by simpa using bundle
    by_cases config : entry.path = AppConfig.fileName
    · rw [if_pos config]
      refine tallies_plain plain ?_ (modules_ofConfig json package hasCommon (entry.content bytes))
      exact congrArg (.entry :: ·) (origins_ofConfig package hasCommon config)
    · rw [if_neg config]
      apply tallies_plain plain _ rfl
      rw [Container.Entry.derived, if_neg config]
      rfl

private theorem tallies_ofEntries (json : Json.Library) (settings : Settings)
    (package bytes : Bytes)
    (entries : List Container.Entry) :
    Tallies json settings (entries.any fun entry => entry.path = AppConfig.commonFileName) bytes
      entries (ofEntries json settings package bytes entries) := by
  rw [ofEntries]
  generalize (entries.any fun entry => entry.path = AppConfig.commonFileName) = hasCommon
  induction entries with
  | nil => exact tallies_nil
  | cons entry entries ih =>
    rw [List.flatMap_cons]
    exact (tallies_ofEntry json settings package bytes hasCommon entry).append ih

end Plan

namespace Workspace

variable {space after : Workspace} {policy : OverwritePolicy} {root : Bytes} {package : Package}
  {report : PackageReport}

/-- The numbers in the report on a package that was unpacked add up. Each file of the plan was
written, a duplicate or kept: one for each entry that is no bundle, for each bundle without modules
and for each module, and those derived from the configuration of the app, of which an empty object
gives one, unless the package has the common file itself. Every other bundle has a module, and at
most one that was cut off. The index grew by the files that were written or kept. -/
theorem counters_add_up (done : space.unpackPackage policy root package = (.ok report, after)) :
    ∃ contents opened, space.readPackage (space.appIdOf package.path) package.path =
        (.ok contents, opened) ∧
      let json := space.platform.json
      let settings := space.context.settings
      let hasCommon := contents.entries.any fun entry => entry.path = AppConfig.commonFileName
      let derived := Plan.countOf .config
        (Plan.ofEntries json settings package.path contents.bytes contents.entries)
      let bundles := contents.entries.countP settings.isBundle
      report.written + report.duplicates + report.kept =
          contents.entries.countP (fun entry => !settings.isBundle entry) + report.fallbacks +
            report.modules + derived ∧
        derived = (contents.entries.map fun entry =>
          (entry.derived json hasCommon contents.bytes).length).sum ∧
        (∀ entry ∈ contents.entries, entry.path = AppConfig.fileName →
          json.parse (entry.content contents.bytes) = .ok (.object []) →
            ∀ text, json.dump (.object []) = .ok text →
              entry.derived json hasCommon contents.bytes =
                if hasCommon then [] else [⟨AppConfig.commonFileName, text⟩]) ∧
        report.fallbacks ≤ bundles ∧
        (report.fallbacks = bundles ↔ report.modules = 0) ∧
        report.bytecodeModules ≤ report.modules ∧
        report.truncatedModules ≤ contents.entries.countP (settings.isSplit contents.bytes) ∧
        after.context.outputs.size =
          space.context.outputs.size + report.written + report.kept := by
  have unpacked := space.unpacks policy root package
  rw [done] at unpacked
  cases unpacked with
  | @done contents outcomes plan unresolved opened performed _ read planned performs checks =>
  have reading := readPackage_sameOutput space (space.appIdOf package.path) package.path
  have platform := platform_readPackage space (space.appIdOf package.path) package.path
  rw [read] at reading platform
  obtain ⟨output, settings⟩ := reading
  rw [platform, settings] at planned
  refine ⟨contents, opened, read, ?_⟩
  dsimp only [reportDone]
  rw [planned]
  have tallies := Plan.tallies_ofEntries space.platform.json space.context.settings package.path
    contents.bytes contents.entries
  rw [planned] at tallies
  have bundles := space.context.settings.countP_isBundle contents.bytes contents.entries
  have fallbacks : Plan.fallbacks plan = _ := tallies.fallback
  obtain ⟨results, changed, _⟩ := (opened.openRegistry
    (space.appIdOf package.path)).performAll_output policy root (space.appIdOf package.path) plan
  rw [performs] at results changed
  have each : space.output.offerEach policy root (Plan.offers plan) =
      (.ok outcomes, performed.output) := by
    rw [← output]
    exact Prod.ext results.symm changed.symm
  obtain ⟨length, size⟩ := Output.size_offerEach each
  have counted := (Outcome.count_eq_length outcomes).trans (length.trans (Plan.length_offers plan))
  have checked := (checkDependencies_sameOutput performed package.path
    (space.appIdOf package.path) ((Plan.modules plan).map ScriptModule.path)).1
  rw [checks] at checked
  refine ⟨?_, tallies.config, fun _ _ config empty _ written =>
    Container.Entry.derived_empty config empty written _, ?_, ?_, List.countP_le_length,
    tallies.truncated, ?_⟩
  · rw [counted, tallies.entry, tallies.module]
    rfl
  · omega
  · rw [tallies.none]
    omega
  · exact (congrArg (fun output : Output => output.index.size) checked).trans size

/-- A package with a plain file, a bundle of two modules, and a configuration that is split. -/
def talliedSpace : Workspace where
  disk := (Output.put Disk.empty (utf8 "p") (Container.encode [
    ⟨utf8 "a.txt", utf8 "x"⟩,
    ⟨utf8 "app-service.js", utf8 "define('m',function()\x7b\x7d);define('n',function()\x7b"⟩,
    ⟨utf8 "app-config.json", utf8 "\x7b\x7d"⟩])).2

theorem counters_add_up_sample :
    ∃ report after,
      talliedSpace.unpackPackage .merge (utf8 "out") ⟨utf8 "p", .subpackage⟩ =
          (.ok report, after) ∧
        report.written = 5 ∧ report.modules = 2 ∧ report.truncatedModules = 1 ∧
        report.fallbacks = 0 ∧ after.context.outputs.size = 5 := by
  rcases done : talliedSpace.unpackPackage .merge (utf8 "out") ⟨utf8 "p", .subpackage⟩ with
    ⟨result, after⟩
  have counts : (talliedSpace.unpackPackage .merge (utf8 "out") ⟨utf8 "p", .subpackage⟩).1.map
      (fun report => (report.written, report.kept, report.modules, report.truncatedModules,
        report.fallbacks)) = .ok (5, 0, 2, 1, 0) := by
    decide +kernel
  rw [done] at counts
  cases result with
  | error failure => cases counts
  | ok report =>
    injection counts with counts
    simp only [Prod.mk.injEq] at counts
    obtain ⟨written, kept, modules, truncated, fallbacks⟩ := counts
    obtain ⟨_, _, _, _, _, _, _, _, _, _, size⟩ := counters_add_up done
    have empty : talliedSpace.context.outputs.size = 0 := rfl
    refine ⟨report, after, rfl, written, modules, truncated, fallbacks, ?_⟩
    rw [size, written, kept, empty]

end Workspace

end Unbundle
