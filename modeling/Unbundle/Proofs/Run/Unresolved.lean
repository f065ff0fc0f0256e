import Unbundle.Proofs.Path.Walk
import Unbundle.Proofs.Run.Requirements

/-!
Dependencies and the warnings of those that are missing. Main statement: a dependency can be looked
up unless a specifier of its module leads nowhere, and each one that counts as unresolved is named
in a warning if it can be looked up.
-/

namespace Unbundle

open Ascii Unbundle.Path

namespace CallSite

/-- The specifiers that a call gives its module: those of its list, and those that its source
requires. -/
inductive Gives (call : Bytes) (record : ScriptModule) : Bytes → Prop
  | listed {path afterPath argument factory specifier : Bytes} {elements : List Bytes}
      (named : readPath call = .ok (path, afterPath))
      (next : nextArgument .noFactoryAfterPath afterPath = .ok argument)
      (list : readDependencies argument = .ok (elements, factory))
      (member : specifier ∈ elements) : Gives call record specifier
  | required {specifier : Bytes} (source : record.form = .source)
      (member : specifier ∈ requires record.body) : Gives call record specifier

theorem mem_dependencies {call past dependency : Bytes} {record : ScriptModule}
    (found : read call = .ok (record, past)) : dependency ∈ record.dependencies ↔
      ∃ specifier, Gives call record specifier ∧
        Specifier.resolve record.path specifier = dependency := by
  obtain ⟨path, afterPath, argument, listed, factory, payload, named, next, list, _, rfl⟩ :=
    read_ok found
  rw [toModule, Std.ExtTreeSet.mem_ofList, List.contains_iff_mem, List.mem_map]
  refine exists_congr fun specifier => and_congr_left fun _ => ?_
  rw [List.mem_append]
  constructor
  · rintro (member | member)
    · exact .listed named next list member
    · by_cases source : payload.form = .source
      · rw [source] at member
        exact .required source member
      · have compiled : payload.form = .bytecode := by
          cases form : payload.form with
          | source => exact absurd form source
          | bytecode => rfl
        rw [compiled] at member
        cases member
  · intro given
    cases given with
    | listed named' next' list' member =>
      cases named.symm.trans named'
      cases next.symm.trans next'
      cases list.symm.trans list'
      exact .inl member
    | required source member =>
      rw [show payload.form = .source from source]
      exact .inr member

end CallSite

namespace Registry

private theorem standing_mem {records : List ScriptModule} {record : ScriptModule}
    (member : record ∈ records) : standing records record ∈ records := by
  have found := latest_of_mem member
  rw [latest] at found
  exact (List.mem_filter.mp (List.mem_of_getLast? found)).1

end Registry

namespace Workspace

open Registry

variable {space after : Workspace} {policy : OverwritePolicy} {root : Bytes}

private theorem checkDependencies_warnings (space : Workspace) (package appId : Bytes)
    (paths : List Bytes) :
    (space.checkDependencies package appId paths).2.context.warnings = space.context.warnings ++
      paths.flatMap fun path =>
        missingWarnings package path ((space.registry appId).unresolved [path]) := by
  induction paths generalizing space with
  | nil => exact (List.append_nil _).symm
  | cons path paths ih =>
    have alone : (space.registry appId).unresolved [path] = _ := List.flatMap_singleton ..
    rw [checkDependencies]
    dsimp only
    rw [ih, warnMissing_warnings, registry_congr (warnMissing_registries ..), List.flatMap_cons,
      List.append_assoc]
    exact congrArg (fun missing => _ ++ (missingWarnings package path missing ++ _)) alone.symm

theorem unpackPackage_warned {package : Package} {report : PackageReport}
    (unpacked : space.unpackPackage policy root package = (.ok report, after)) :
    ∃ planned, after.context.warnings = space.context.warnings ++ planned ++
      ((space.modulesOf policy root package).map ScriptModule.path).flatMap fun path =>
        missingWarnings package.path path ((after.registry report.appId).unresolved [path]) := by
  have answer := space.unpacks policy root package
  obtain ⟨keyring, keyed⟩ := space.readPackage_keyring (space.appIdOf package.path) package.path
  rw [unpacked] at answer
  cases answer with
  | @done contents outcomes plan unresolved opened made _ read planned performs checks =>
    rw [read] at keyed
    obtain rfl : opened = space.withKeyring keyring := keyed
    obtain ⟨carried, before⟩ := performed_eq performs
    have whole : space.modulesOf policy root package = Plan.modules plan := by
      rw [modulesOf, read]
      dsimp only
      rw [planned, carried]
    have warned := made.checkDependencies_warnings package.path (space.appIdOf package.path)
      ((Plan.modules plan).map ScriptModule.path)
    have kept := made.checkDependencies_registries package.path (space.appIdOf package.path)
      ((Plan.modules plan).map ScriptModule.path)
    rw [checks] at warned kept
    rw [whole, registry_congr kept]
    exact ⟨_, before ▸ warned⟩

theorem registered_mem {package : Package} {report : PackageReport}
    (unpacked : space.unpackPackage policy root package = (.ok report, after))
    {record : ScriptModule} (member : record ∈ space.modulesOf policy root package) :
    ∃ stands ∈ space.modulesOf policy root package,
      (after.registry report.appId)[record.path]? = some stands := by
  have app := (appId_of_unpacked (congrArg Prod.fst unpacked)).2
  have registered := space.registry_unpackPackage policy root package report.appId record.path
  rw [unpacked, registeredBy_singleton, if_pos app.symm, latest_of_mem member] at registered
  exact ⟨_, standing_mem member, registered⟩

/-- Every dependency of a module is a relative path with proper names and an extension, unless a
specifier of its call leads nowhere, which makes the empty path one of them. When a package is
unpacked, each dependency that counts as unresolved and is not empty is named in a warning. -/
theorem dependencies_usable (names : List Bytes) (text : Bytes) (space : Workspace)
    (policy : OverwritePolicy) (root : Bytes) (package : Package) :
    (∀ record ∈ (Bundle.split names text).modules, ∃ call past, call <:+ text ∧
      CallSite.read call = .ok (record, past) ∧
      ([] ∈ record.dependencies ↔ ∃ specifier, CallSite.Gives call record specifier ∧
        Specifier.LeadsNowhere record.path specifier) ∧
      ∀ dependency ∈ record.dependencies, dependency ≠ [] →
        dependency.head? ≠ some slash ∧ backslash ∉ dependency ∧
        (∀ segment ∈ segments dependency, segment ≠ [] ∧ segment ≠ here ∧ segment ≠ up) ∧
        dot ∈ lastSegment dependency) ∧
    ∀ report after, space.unpackPackage policy root package = (.ok report, after) →
      report.unresolved = ((after.registry report.appId).unresolved
        ((space.modulesOf policy root package).map ScriptModule.path)).length ∧
      ∃ warnings, after.context.warnings = space.context.warnings ++ warnings ∧
        ∀ record ∈ space.modulesOf policy root package, ∃ stands others bundle,
          (after.registry report.appId)[record.path]? = some stands ∧
          stands ∈ (Bundle.split others bundle).modules ∧
          ∀ dependency ∈ (after.registry report.appId).missing stands.dependencies,
            dependency ≠ [] → ∃ named, dependency ∈ named ∧
              ⟨package.path, utf8 "module " ++ record.path ++
                utf8 " has unresolved dependencies: " ++ (utf8 ", ").intercalate named⟩ ∈
                  warnings := by
  constructor
  · intro record member
    obtain ⟨call, past, inside, read⟩ := Bundle.exists_read_of_mem_modules member
    have depends (dependency : Bytes) := @CallSite.mem_dependencies call past dependency record read
    refine ⟨call, past, inside, read, ?_, fun dependency found nonempty => ?_⟩
    · simp only [depends, Specifier.resolve_eq_nil]
    · obtain ⟨specifier, _, rfl⟩ := (depends dependency).mp found
      obtain ⟨canonical, extended⟩ :=
        (Specifier.usable_resolve record.path specifier).resolve_left nonempty
      exact ⟨canonical.head?_ne_slash, canonical.1, fun segment => canonical.segment_ne, extended⟩
  · intro report after unpacked
    obtain ⟨count, split⟩ := unpackPackage_count unpacked
    obtain ⟨planned, warned⟩ := unpackPackage_warned unpacked
    rw [List.append_assoc] at warned
    refine ⟨count, _, warned, fun record member => ?_⟩
    obtain ⟨stands, brought, found⟩ := registered_mem unpacked member
    obtain ⟨others, bundle, listed⟩ := split stands brought
    refine ⟨stands, others, bundle, found, listed, fun dependency missed nonempty => ?_⟩
    have counted : (after.registry report.appId).unresolved [record.path] =
        (after.registry report.appId).missing stands.dependencies := by
      rw [unresolved, List.flatMap_singleton, found]
    have within : dependency ∈
        ((after.registry report.appId).missing stands.dependencies).filter (· ≠ []) := by
      simpa [nonempty] using missed
    refine ⟨_, within, List.mem_append_right _
      (List.mem_flatMap.mpr ⟨record.path, List.mem_map_of_mem member, ?_⟩)⟩
    rw [counted, missingWarnings, if_neg (List.ne_nil_of_mem within)]
    exact List.mem_singleton_self _

/-- A module with a specifier that leads nowhere, and one that leads to no module. -/
def strayText : String := "define('m',['..'],function()\x7brequire('./x')\x7d)"

def straySpace : Workspace := bundlesSpace [("p", strayText)]

/-- Of two dependencies that count, the one with a name is named. -/
theorem dependencies_usable_sample :
    (∃ record ∈ (Bundle.split [utf8 "define"] (utf8 strayText)).modules,
      utf8 "x.js" ∈ record.dependencies ∧ utf8 "x.js" ≠ [] ∧
        dot ∈ lastSegment (utf8 "x.js")) ∧
    ∃ report after,
      straySpace.unpackPackage .merge (utf8 "out") ⟨utf8 "p", .subpackage⟩ = (.ok report, after) ∧
      report.unresolved = 2 ∧
      ∃ record ∈ straySpace.modulesOf .merge (utf8 "out") ⟨utf8 "p", .subpackage⟩, ∃ stands,
        (after.registry report.appId)[record.path]? = some stands ∧
        utf8 "x.js" ∈ (after.registry report.appId).missing stands.dependencies ∧
        ∃ named, utf8 "x.js" ∈ named ∧
          ⟨utf8 "p", utf8 "module " ++ record.path ++ utf8 " has unresolved dependencies: " ++
            (utf8 ", ").intercalate named⟩ ∈ after.context.warnings := by
  have answer : (straySpace.unpackPackage .merge (utf8 "out") ⟨utf8 "p", .subpackage⟩).1.map
      (fun report => (report.appId, report.unresolved)) = .ok ([], 2) := by
    decide +kernel
  have missed : ∃ record ∈ straySpace.modulesOf .merge (utf8 "out") ⟨utf8 "p", .subpackage⟩,
      let registry := (straySpace.unpackPackage .merge (utf8 "out")
        ⟨utf8 "p", .subpackage⟩).2.registry []
      ∃ stands ∈ registry[record.path]?, utf8 "x.js" ∈ registry.missing stands.dependencies := by
    decide +kernel
  obtain ⟨usable, warned⟩ := dependencies_usable [utf8 "define"] (utf8 strayText) straySpace .merge
    (utf8 "out") ⟨utf8 "p", .subpackage⟩
  constructor
  · have found : ∃ record ∈ (Bundle.split [utf8 "define"] (utf8 strayText)).modules,
        utf8 "x.js" ∈ record.dependencies := by
      decide +kernel
    obtain ⟨record, member, depends⟩ := found
    obtain ⟨_, _, _, _, _, proper⟩ := usable record member
    exact ⟨record, member, depends, by decide, (proper _ depends (by decide)).2.2.2⟩
  · rcases unpacked : straySpace.unpackPackage .merge (utf8 "out") ⟨utf8 "p", .subpackage⟩ with
      ⟨failure | report, after⟩
    · rw [unpacked] at answer
      cases answer
    rw [unpacked] at answer missed
    obtain ⟨app, count⟩ := Prod.mk.inj (Except.ok.inj answer)
    obtain ⟨record, member, stands, found, lacks⟩ := missed
    rw [← app] at found lacks
    obtain ⟨_, warnings, grown, names⟩ := warned _ _ unpacked
    obtain ⟨other, _, _, same, _, named⟩ := names record member
    cases (Option.mem_def.mp found).symm.trans same
    obtain ⟨list, within, warns⟩ := named _ lacks (by decide)
    exact ⟨report, after, rfl, count, record, member, stands, found, lacks, list, within,
      grown ▸ List.mem_append_right _ warns⟩

/-- An empty dependency counts as unresolved, and no warning names it. -/
theorem dependency_unnamed :
    (∃ record ∈ (Bundle.split [utf8 "define"]
        (utf8 "define('m',[''],function()\x7b\x7d)")).modules, [] ∈ record.dependencies) ∧
      let run := (bundlesSpace [("p", "define('m',[''],function()\x7b\x7d)")]).unpackQueue .merge
        (utf8 "out") true [⟨utf8 "p", .subpackage⟩]
      run.1.map PackageReport.unresolved = [1] ∧ run.2.2.context.warnings = [] := by
  decide +kernel

end Workspace

end Unbundle
