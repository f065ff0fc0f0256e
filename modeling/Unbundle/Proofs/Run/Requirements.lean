import Unbundle.Proofs.Path.Specifier
import Unbundle.Proofs.Run.Dependencies

/-!
Modules that are required under their own names. Main statement: such a call looks the module up
with the script extension where its name has none, and counts as unresolved if nothing is registered
there by the time the package is checked.
-/

namespace Unbundle

open Ascii Unbundle.Path

namespace Bundle

theorem resolve_mem_dependencies {names : List Bytes} {text specifier : Bytes}
    {record : ScriptModule} (member : record ∈ (split names text).modules)
    (source : record.form = .source) (required : specifier ∈ requires record.body) :
    Specifier.resolve record.path specifier ∈ record.dependencies := by
  obtain ⟨_, _, _, read⟩ := exists_read_of_mem_modules member
  obtain ⟨path, _, _, listed, _, payload, _, _, _, _, rfl⟩ := CallSite.read_ok read
  exact (CallSite.mem_dependencies_toModule source).mpr (.inr ⟨specifier, required, rfl⟩)

end Bundle

namespace Plan

variable {record : ScriptModule}

private theorem mem_modules {plan : List Action} :
    record ∈ modules plan ↔ .register record ∈ plan := by
  rw [modules, List.mem_filterMap]
  constructor
  · rintro ⟨action, member, registers⟩
    cases action with
    | register other =>
      cases registers
      exact member
    | complain | warn | write => cases registers
  · intro member
    exact ⟨.register record, member, rfl⟩

private theorem mem_modules_ofModule {source : Bytes} {other : ScriptModule}
    (member : record ∈ modules (ofModule source other)) : record = other := by
  rw [mem_modules, ofModule, List.mem_append] at member
  rcases member with warned | made
  · by_cases truncated : other.truncated = true
    · rw [if_pos truncated, List.mem_singleton] at warned
      cases warned
    · rw [if_neg truncated] at warned
      cases warned
  · simpa using made

private theorem mem_modules_ofBundle {names : List Bytes} {source path text : Bytes}
    (member : record ∈ modules (ofBundle names source path text)) :
    record ∈ (Bundle.split names text).modules := by
  rw [ofBundle] at member
  by_cases fallback : (Bundle.split names text).fallback = true
  · rw [if_pos fallback] at member
    cases member
  · rw [if_neg fallback, modules, List.filterMap_append, List.mem_append] at member
    rcases member with skipped | made
    · cases defects : (Bundle.split names text).skipped.filterMap Bundle.Item.defect? with
      | nil =>
        rw [defects] at skipped
        cases skipped
      | cons first others =>
        rw [defects] at skipped
        cases skipped
    · rw [List.filterMap_flatMap, List.mem_flatMap] at made
      obtain ⟨other, listed, registers⟩ := made
      obtain rfl := mem_modules_ofModule registers
      exact listed

theorem exists_split_of_mem_modules {json : Json.Library} {settings : Settings}
    {package bytes : Bytes} {entries : List Container.Entry}
    (member : record ∈ modules (ofEntries json settings package bytes entries)) :
    ∃ text, record ∈ (Bundle.split settings.registrationNames text).modules := by
  rw [ofEntries, modules, List.filterMap_flatMap, List.mem_flatMap] at member
  obtain ⟨entry, _, registers⟩ := member
  rw [ofEntry] at registers
  by_cases bundle : settings.isBundle entry = true
  · rw [if_pos bundle] at registers
    exact ⟨_, mem_modules_ofBundle registers⟩
  · rw [if_neg bundle] at registers
    by_cases config : entry.path = AppConfig.fileName
    · rw [if_pos config, List.filterMap_cons_none rfl, ← modules, modules_ofConfig] at registers
      cases registers
    · rw [if_neg config] at registers
      cases registers

end Plan

namespace Registry

/-- The dependencies that the check of modules of these paths counts. -/
def unresolved (registry : Registry) (paths : List Bytes) : List Bytes :=
  paths.flatMap fun path =>
    match registry[path]? with
    | none => []
    | some record => registry.missing record.dependencies

variable {registry : Registry} {path : Bytes} {paths : List Bytes}

theorem mem_missing {dependencies : PathSet} :
    path ∈ registry.missing dependencies ↔ path ∈ dependencies ∧ path ∉ registry := by
  rw [missing, List.mem_filter, Std.ExtTreeSet.mem_toList, Bool.not_eq_true', ← Bool.not_eq_true,
    Std.ExtTreeMap.contains_iff_mem]

theorem mem_unresolved : path ∈ registry.unresolved paths ↔
    path ∉ registry ∧ ∃ other ∈ paths, ∃ record, registry[other]? = some record ∧
      path ∈ record.dependencies := by
  rw [unresolved, List.mem_flatMap]
  constructor
  · rintro ⟨other, listed, counts⟩
    cases found : registry[other]? with
    | none =>
      rw [found] at counts
      cases counts
    | some record =>
      rw [found] at counts
      obtain ⟨depends, absent⟩ := mem_missing.mp counts
      exact ⟨absent, other, listed, record, found, depends⟩
  · rintro ⟨absent, other, listed, record, found, depends⟩
    refine ⟨other, listed, ?_⟩
    rw [found]
    exact mem_missing.mpr ⟨depends, absent⟩

end Registry

namespace Workspace

open Registry

variable {start space before after : Workspace} {policy : OverwritePolicy} {root appId : Bytes}

private theorem checkDependencies_count (space : Workspace) (package appId : Bytes)
    (paths : List Bytes) :
    (space.checkDependencies package appId paths).1 =
      ((space.registry appId).unresolved paths).length := by
  induction paths generalizing space with
  | nil => rfl
  | cons path paths ih =>
    rw [checkDependencies, unresolved, List.flatMap_cons, List.length_append]
    dsimp only
    rw [ih, registry_congr (warnMissing_registries ..)]
    rfl

/-- Unpacking a package counts what the modules of the package miss once all of them are registered.
-/
theorem unpackPackage_count {package : Package} {report : PackageReport}
    (unpacked : space.unpackPackage policy root package = (.ok report, after)) :
    report.unresolved = ((after.registry report.appId).unresolved
      ((space.modulesOf policy root package).map ScriptModule.path)).length ∧
    ∀ record ∈ space.modulesOf policy root package,
      ∃ names text, record ∈ (Bundle.split names text).modules := by
  have answer := space.unpacks policy root package
  rw [unpacked] at answer
  cases answer with
  | @done contents outcomes plan unresolved opened made _ read planned performs checks =>
    have whole : space.modulesOf policy root package = Plan.modules plan := by
      rw [modulesOf, read]
      dsimp only
      rw [planned, (performed_eq performs).1]
    have counted := made.checkDependencies_count package.path (space.appIdOf package.path)
      ((Plan.modules plan).map ScriptModule.path)
    have kept := made.checkDependencies_registries package.path (space.appIdOf package.path)
      ((Plan.modules plan).map ScriptModule.path)
    rw [checks] at counted kept
    rw [whole]
    refine ⟨?_, ?_⟩
    · rw [registry_congr kept]
      exact counted
    · intro record member
      rw [← planned] at member
      obtain ⟨text, found⟩ := Plan.exists_split_of_mem_modules member
      exact ⟨_, text, found⟩

/-- The packages of a run are met at points of the run. -/
theorem Reaches.stages (reached : Reaches start space) (policy : OverwritePolicy) (root : Bytes)
    (proceeds : Bool) {packages : List Package} {package : Package}
    (stage : (before, package) ∈ space.stages policy root proceeds packages) :
    Reaches start before := by
  induction packages generalizing space with
  | nil => cases stage
  | cons first packages ih =>
    rw [Workspace.stages] at stage
    dsimp only at stage
    rcases List.mem_cons.mp stage with same | later
    · cases same
      exact reached
    · cases stopped : stopOf proceeds first (space.unpackPackage policy root first).1 with
      | some reason =>
        rw [stopped] at later
        cases later
      | none =>
        rw [stopped] at later
        have shown (progress : Progress) : Reaches start
            ((space.unpackPackage policy root first).2.showProgress progress) :=
          (reached.unpack policy root first).elsewhere rfl rfl
        exact ih (shown _) later

/-- A canonical path behind a slash names itself, with the script extension where its last segment
has none. So a call with the path of a module that is registered for the app by the time its package
is checked never counts as unresolved if that segment has an extension. Otherwise it counts just if
nothing is registered under the longer name. -/
theorem own_name_resolved (fresh : start.context.registries = ∅) (reached : Reaches start space)
    (policy : OverwritePolicy) (root : Bytes) (proceeds : Bool) {packages : List Package}
    {package : Package} {report : PackageReport}
    (stage : (before, package) ∈ space.stages policy root proceeds packages)
    (unpacked : before.unpackPackage policy root package = (.ok report, after)) :
    (∀ names text, ∀ record ∈ (Bundle.split names text).modules, ∀ requiring,
      Specifier.resolve requiring (slash :: record.path) =
        if dot ∈ lastSegment record.path then record.path else record.path ++ utf8 ".js") ∧
    ∃ counted, counted = (after.registry report.appId).unresolved
        ((before.modulesOf policy root package).map ScriptModule.path) ∧
      report.unresolved = counted.length ∧
      ∀ record ∈ before.modulesOf policy root package, record.form = .source →
        ∀ target ∈ after.registry report.appId, slash :: target ∈ requires record.body →
          if dot ∈ lastSegment target then target ∈ record.dependencies ∧ target ∉ counted
          else target ++ utf8 ".js" ∈ record.dependencies ∧
            ((after.registry report.appId)[record.path]? = some record →
              (target ++ utf8 ".js" ∈ counted ↔
                target ++ utf8 ".js" ∉ after.registry report.appId)) := by
  constructor
  · intro names text record member requiring
    exact Specifier.resolve_slash (Bundle.canonical_of_mem_modules member) requiring
  have found : Reaches start before := reached.stages policy root proceeds stage
  have grounded : after.Grounded := by
    have kept := (found.unpack policy root package).grounded (grounded_of_empty fresh)
    rwa [unpacked] at kept
  obtain ⟨count, split⟩ := unpackPackage_count unpacked
  refine ⟨_, rfl, count, fun record member source target registered required => ?_⟩
  obtain ⟨names, text, listed⟩ := split record member
  have canonical : Canonical target := by
    obtain ⟨other, stands⟩ := Option.isSome_iff_exists.mp
      (Std.ExtTreeMap.mem_iff_isSome_getElem?.mp registered)
    exact (grounded report.appId target other stands).2.1
  have depends := Bundle.resolve_mem_dependencies listed source required
  rw [Specifier.resolve_slash canonical] at depends
  by_cases dotted : dot ∈ lastSegment target
  · rw [if_pos dotted]
    rw [if_pos dotted] at depends
    exact ⟨depends, fun counts => (mem_unresolved.mp counts).1 registered⟩
  · rw [if_neg dotted]
    rw [if_neg dotted] at depends
    refine ⟨depends, fun stands => ?_⟩
    rw [mem_unresolved]
    constructor
    · exact And.left
    · intro absent
      exact ⟨absent, record.path, List.mem_map_of_mem member, record, stands, depends⟩

/-- Packages that are bundles of modules and nothing else. -/
def bundlesSpace (bundles : List (String × String)) : Workspace where
  disk := bundles.foldl (fun disk (name, bundle) =>
    (Output.put disk (utf8 name) (Container.encode [⟨utf8 "game.js", utf8 bundle⟩])).2) Disk.empty

/-- A module of some path, and one that requires this path from the root. -/
def moduleText (name : String) : String := "define('" ++ name ++ "',function()\x7b\x7d)"

def requiringText (name : String) : String :=
  "define('n.js',function()\x7brequire('/" ++ name ++ "')\x7d)"

def requiringSpace : Workspace := bundlesSpace [("p", moduleText "m.js" ++ requiringText "m.js")]

theorem own_name_resolved_sample :
    requiringSpace.context.registries = ∅ ∧ Reaches requiringSpace requiringSpace ∧
      (requiringSpace, ⟨utf8 "p", .subpackage⟩) ∈
        requiringSpace.stages .merge (utf8 "out") true [⟨utf8 "p", .subpackage⟩] ∧
      ∃ report after,
        requiringSpace.unpackPackage .merge (utf8 "out") ⟨utf8 "p", .subpackage⟩ =
          (.ok report, after) ∧
        ∃ record ∈ requiringSpace.modulesOf .merge (utf8 "out") ⟨utf8 "p", .subpackage⟩,
          record.form = .source ∧ slash :: utf8 "m.js" ∈ requires record.body ∧
          utf8 "m.js" ∈ after.registry report.appId ∧ utf8 "m.js" ∈ record.dependencies ∧
          report.unresolved = 0 := by
  have stage : (requiringSpace, ⟨utf8 "p", .subpackage⟩) ∈
      requiringSpace.stages .merge (utf8 "out") true [⟨utf8 "p", .subpackage⟩] :=
    List.mem_cons_self
  have answer : (requiringSpace.unpackPackage .merge (utf8 "out") ⟨utf8 "p", .subpackage⟩).1.map
      (fun report => (report.appId, report.unresolved)) = .ok ([], 0) := by
    decide +kernel
  have known : utf8 "m.js" ∈ (requiringSpace.unpackPackage .merge (utf8 "out")
      ⟨utf8 "p", .subpackage⟩).2.registry [] := by
    decide +kernel
  have requiring : ∃ record ∈
      requiringSpace.modulesOf .merge (utf8 "out") ⟨utf8 "p", .subpackage⟩,
      record.form = .source ∧ slash :: utf8 "m.js" ∈ requires record.body := by
    decide +kernel
  rcases unpacked : requiringSpace.unpackPackage .merge (utf8 "out") ⟨utf8 "p", .subpackage⟩ with
    ⟨failure | report, after⟩
  · rw [unpacked] at answer
    cases answer
  rw [unpacked] at answer known
  obtain ⟨app, none⟩ := Prod.mk.inj (Except.ok.inj answer)
  obtain ⟨record, member, source, required⟩ := requiring
  rw [← app] at known
  obtain ⟨_, _, rfl, _, resolves⟩ :=
    own_name_resolved rfl .refl .merge (utf8 "out") true stage unpacked
  have depends := resolves record member source (utf8 "m.js") known required
  rw [if_pos (by decide)] at depends
  exact ⟨rfl, .refl, stage, report, after, rfl, record, member, source, required, known,
    depends.1, none⟩

/-- A module whose name has no extension is not found under it, nor is one that only a package
behind the requiring one registers. -/
theorem own_name_unresolved :
    (∃ record ∈ (Bundle.split [utf8 "define"] (utf8 (moduleText "util"))).modules,
      Specifier.resolve (utf8 "n.js") (slash :: record.path) ≠ record.path) ∧
    ((bundlesSpace [("p", moduleText "util" ++ requiringText "util")]).unpackQueue .merge
      (utf8 "out") true [⟨utf8 "p", .subpackage⟩]).1.map PackageReport.unresolved = [1] ∧
    ((bundlesSpace [("p", requiringText "m.js"), ("q", moduleText "m.js")]).unpackQueue .merge
      (utf8 "out") true [⟨utf8 "p", .subpackage⟩, ⟨utf8 "q", .subpackage⟩]).1.map
        PackageReport.unresolved = [1, 0] := by
  decide +kernel

end Workspace

end Unbundle
