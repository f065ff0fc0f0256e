import Mathlib.Algebra.GroupWithZero.Nat
import Unbundle.Proofs.Run.Omission
import Unbundle.Proofs.Run.Registry

/-!
The check of dependencies across the packages of a run. Main statement: what a package misses is
exactly what neither itself nor a package before it has registered for the same app.
-/

namespace Unbundle

namespace Registry

/-- The module that stands under a path once modules have been registered: the last one of that path. -/
def latest (records : List ScriptModule) (path : Bytes) : Option ScriptModule :=
  (records.filter fun record => record.path = path).getLast?

/-- The module that takes the place of a registered one in the end. -/
def standing (records : List ScriptModule) (record : ScriptModule) : ScriptModule :=
  (latest records record.path).getD record

/-- The dependencies of a module that none of the known modules meets. -/
def unmet (known : List ScriptModule) (record : ScriptModule) : List Bytes :=
  record.dependencies.toList.filter fun path => ∀ other ∈ known, other.path ≠ path

variable {records : List ScriptModule} {path : Bytes} {record : ScriptModule}

private theorem latest_append (first second : List ScriptModule) (path : Bytes) :
    latest (first ++ second) path = (latest second path).or (latest first path) := by
  rw [latest, latest, latest, List.filter_append, List.getLast?_append]

private theorem latest_eq_none :
    latest records path = none ↔ ∀ record ∈ records, record.path ≠ path := by
  rw [latest, List.getLast?_eq_none_iff, List.filter_eq_nil_iff]
  simp only [decide_eq_true_eq, ne_eq]

/-- Each module that has been registered has one standing in its place. -/
theorem latest_of_mem (member : record ∈ records) :
    latest records record.path = some (standing records record) := by
  rw [standing]
  cases found : latest records record.path with
  | none => exact absurd rfl (latest_eq_none.mp found record member)
  | some last => rfl

theorem standing_append (earlier : List ScriptModule) (member : record ∈ records) :
    standing (earlier ++ records) record = standing records record := by
  rw [standing, latest_append, latest_of_mem member]
  rfl

private theorem mem_unmet {known : List ScriptModule} :
    path ∈ unmet known record ↔
      path ∈ record.dependencies ∧ ∀ other ∈ known, other.path ≠ path := by
  rw [unmet, List.mem_filter, Std.ExtTreeSet.mem_toList, decide_eq_true_eq]

end Registry

namespace Queue

theorem index_le {queue : Queue} {i k : Nat} {first second : Package}
    (found : queue.packages[i]? = some first) (main : first.kind = .main)
    (found' : queue.packages[k]? = some second) (sub : second.kind = .subpackage) : i ≤ k := by
  rw [packages] at found found'
  have front : i < queue.main.length := by
    by_contra behind
    rw [List.getElem?_append_right (by simpa using behind)] at found
    obtain ⟨path, _, rfl⟩ := List.mem_map.mp (List.mem_of_getElem? found)
    cases main
  have back : queue.main.length ≤ k := by
    by_contra before
    rw [List.getElem?_append_left (by simpa using before)] at found'
    obtain ⟨path, _, rfl⟩ := List.mem_map.mp (List.mem_of_getElem? found')
    cases sub
  omega

end Queue

namespace Action

def warning? : Action → Option Warning
  | warn source message => some ⟨source, message⟩
  | _ => none

end Action

namespace Workspace

open Registry

variable {space opened after : Workspace} {policy : OverwritePolicy} {root appId : Bytes}

/-- The actions of a plan that are carried out: those before the first that fails. -/
def performed (space : Workspace) (appId : Bytes) (policy : OverwritePolicy) (root : Bytes) :
    List Action → List Action
  | [] => []
  | action :: plan =>
    match space.perform appId policy root action with
    | (.error _, _) => []
    | (.ok _, next) => action :: next.performed appId policy root plan

/-- The modules that a package registers, in order, whether or not it fails in the end. -/
def modulesOf (space : Workspace) (policy : OverwritePolicy) (root : Bytes) (package : Package) :
    List ScriptModule :=
  let appId := space.appIdOf package.path
  match space.readPackage appId package.path with
  | (.error _, _) => []
  | (.ok contents, opened) =>
    Plan.modules ((opened.openRegistry appId).performed appId policy root
      (Plan.ofEntries opened.platform.json opened.context.settings package.path contents.bytes
        contents.entries))

/-- The modules that packages register for an app. -/
def registeredBy (policy : OverwritePolicy) (root appId : Bytes)
    (stages : List (Workspace × Package)) : List ScriptModule :=
  stages.flatMap fun (before, package) =>
    if before.appIdOf package.path = appId then before.modulesOf policy root package else []

/-- The warning of the dependencies that a module misses, if one of them has a name. -/
def missingWarnings (package path : Bytes) (missing : List Bytes) : List Warning :=
  if missing.filter (· ≠ []) = [] then []
  else [⟨package, utf8 "module " ++ path ++ utf8 " has unresolved dependencies: " ++
    (utf8 ", ").intercalate (missing.filter (· ≠ []))⟩]

theorem registry_perform (space : Workspace) (policy : OverwritePolicy) (root appId : Bytes)
    (action : Action) (other path : Bytes) :
    ((space.perform appId policy root action).2.registry other)[path]? =
      (latest (if appId = other then action.module?.toList else []) path).or
        (space.registry other)[path]? := by
  cases action with
  | register record =>
    rw [perform, registry_register]
    by_cases same : appId = other
    · rw [if_pos same]
      by_cases named : record.path = path
      · rw [if_pos ⟨same, named⟩]
        simp [latest, Action.module?, named]
      · rw [if_neg fun both => named both.2]
        simp [latest, Action.module?, named]
    · rw [if_neg same, if_neg fun both => same both.1]
      rfl
  | complain | warn | write =>
    by_cases same : appId = other
    · rw [if_pos same]
      rfl
    · rw [if_neg same]
      rfl

theorem module?_of_failed {action : Action} {failure : Failure}
    (failed : space.perform appId policy root action = (.error failure, after)) :
    action.module? = none := by
  cases action with
  | register record => cases failed
  | complain | warn | write => rfl

/-- After a plan the modules stand that its carried out part registers, the others as before. -/
theorem registry_performAll (space : Workspace) (policy : OverwritePolicy) (root appId : Bytes)
    (plan : List Action) (other path : Bytes) :
    ((space.performAll appId policy root plan).2.registry other)[path]? =
      (latest (if appId = other then Plan.modules (space.performed appId policy root plan) else [])
        path).or (space.registry other)[path]? := by
  induction plan generalizing space with
  | nil =>
    rw [performed, Plan.modules, List.filterMap_nil, ite_self]
    rfl
  | cons action plan ih =>
    have step := space.registry_perform policy root appId action other path
    rw [performAll_cons, performed]
    rcases done : space.perform appId policy root action with ⟨failure | outcome, next⟩
    · rw [done, module?_of_failed done] at step
      exact step
    · rw [done] at step
      dsimp only
      rw [ih next, step, ← Option.or_assoc, ← latest_append]
      by_cases same : appId = other
      · rw [if_pos same, if_pos same, if_pos same, Plan.modules, Plan.modules]
        cases registers : action.module? with
        | none => rw [List.filterMap_cons_none registers, Option.toList_none, List.nil_append]
        | some record => rw [List.filterMap_cons_some registers]; rfl
      · rw [if_neg same, if_neg same, if_neg same, List.append_nil]

/-- A plan that does not fail is carried out as a whole, and gives its warnings in order. -/
theorem performed_eq {plan : List Action} {outcomes : List Outcome}
    (made : space.performAll appId policy root plan = (.ok outcomes, after)) :
    space.performed appId policy root plan = plan ∧
      after.context.warnings = space.context.warnings ++ plan.filterMap Action.warning? := by
  induction plan generalizing space outcomes with
  | nil =>
    cases made
    exact ⟨rfl, (List.append_nil _).symm⟩
  | cons action plan ih =>
    rw [performAll] at made
    rw [performed]
    have warned : (space.perform appId policy root action).2.context.warnings =
        space.context.warnings ++ action.warning?.toList := by
      cases action with
      | warn source message => rfl
      | complain | write | register => exact (List.append_nil _).symm
    rcases first : space.perform appId policy root action with ⟨failure | outcome, next⟩
    · rw [first] at made
      cases made
    rw [first] at made warned
    dsimp only at made warned ⊢
    rcases others : next.performAll appId policy root plan with ⟨failure | rest, final⟩
    · rw [others] at made
      cases made
    rw [others] at made
    obtain rfl : final = after := congrArg Prod.snd made
    obtain ⟨whole, later⟩ := ih others
    refine ⟨by rw [whole], ?_⟩
    rw [later, warned, List.append_assoc]
    cases warns : action.warning? with
    | none => rw [List.filterMap_cons_none warns]; rfl
    | some warning => rw [List.filterMap_cons_some warns]; rfl

theorem registry_congr (same : after.context.registries = space.context.registries)
    (other : Bytes) : after.registry other = space.registry other := by
  rw [registry, registry, same]

theorem registeredBy_singleton (before : Workspace) (policy : OverwritePolicy)
    (root : Bytes) (package : Package) (appId : Bytes) :
    registeredBy policy root appId [(before, package)] =
      if before.appIdOf package.path = appId then before.modulesOf policy root package else [] :=
  List.flatMap_singleton ..

private theorem registeredBy_append (policy : OverwritePolicy) (root appId : Bytes)
    (first second : List (Workspace × Package)) :
    registeredBy policy root appId (first ++ second) =
      registeredBy policy root appId first ++ registeredBy policy root appId second :=
  List.flatMap_append

theorem registry_of_read {package : Package} {contents : Contents}
    (read : space.readPackage (space.appIdOf package.path) package.path = (.ok contents, opened))
    (policy : OverwritePolicy) (root other path : Bytes) :
    (((opened.openRegistry (space.appIdOf package.path)).performAll (space.appIdOf package.path)
        policy root (Plan.ofEntries opened.platform.json opened.context.settings package.path
          contents.bytes contents.entries)).2.registry other)[path]? =
      (latest (registeredBy policy root other [(space, package)]) path).or
        (space.registry other)[path]? := by
  obtain ⟨keyring, keyed⟩ := space.readPackage_keyring (space.appIdOf package.path) package.path
  rw [read] at keyed
  obtain rfl : opened = space.withKeyring keyring := keyed
  rw [registry_performAll, registry_openRegistry, registeredBy_singleton, modulesOf, read]
  rfl

/-- After a package the modules stand that it has registered, the others as before. -/
theorem registry_unpackPackage (space : Workspace) (policy : OverwritePolicy) (root : Bytes)
    (package : Package) (other path : Bytes) :
    ((space.unpackPackage policy root package).2.registry other)[path]? =
      (latest (registeredBy policy root other [(space, package)]) path).or
        (space.registry other)[path]? := by
  have unpacked := space.unpacks policy root package
  generalize (space.unpackPackage policy root package).1 = result,
    (space.unpackPackage policy root package).2 = final at unpacked ⊢
  cases unpacked with
  | unread read =>
    obtain ⟨keyring, keyed⟩ := space.readPackage_keyring (space.appIdOf package.path) package.path
    rw [read] at keyed
    obtain rfl : final = space.withKeyring keyring := keyed
    rw [registeredBy_singleton, modulesOf, read, ite_self]
    rfl
  | failed read made =>
    have step := registry_of_read read policy root other path
    rw [made] at step
    exact step
  | @done contents outcomes plan unresolved opened after _ read planned made checks =>
    have step := registry_of_read read policy root other path
    have checked := after.checkDependencies_registries package.path (space.appIdOf package.path)
      ((Plan.modules plan).map ScriptModule.path)
    rw [planned, made] at step
    rw [checks] at checked
    rw [registry_congr checked]
    exact step

/-- The packages that a run reaches find the settings that it started with, and for each app the
modules that the packages before them have registered. -/
theorem stages_registry (space : Workspace) (policy : OverwritePolicy) (root : Bytes)
    (proceeds : Bool) (packages : List Package) {k : Nat} {before : Workspace} {package : Package}
    (reached : (space.stages policy root proceeds packages)[k]? = some (before, package)) :
    before.context.settings = space.context.settings ∧
      ∀ appId (path : Bytes), (before.registry appId)[path]? =
        (latest (registeredBy policy root appId
          ((space.stages policy root proceeds packages).take k)) path).or
            (space.registry appId)[path]? := by
  induction packages generalizing space k with
  | nil => cases reached
  | cons first packages ih =>
    obtain ⟨_, settings⟩ := space.unpackPackage_output policy root first
    have step := space.registry_unpackPackage policy root first
    rw [stages] at reached ⊢
    rcases unpacked : space.unpackPackage policy root first with ⟨result, after⟩
    rw [unpacked] at reached settings step
    dsimp only at reached settings step ⊢
    cases k with
    | zero =>
      rw [List.getElem?_cons_zero] at reached
      cases reached
      exact ⟨rfl, fun _ _ => rfl⟩
    | succ k =>
      rw [List.getElem?_cons_succ] at reached
      cases stopped : stopOf proceeds first result with
      | some reason =>
        rw [stopped] at reached
        cases reached
      | none =>
        rw [stopped] at reached
        dsimp only at reached ⊢
        obtain ⟨kept, registered⟩ := ih _ reached
        refine ⟨kept.trans settings, fun appId path => ?_⟩
        rw [registered, List.take_succ_cons, ← List.singleton_append, registeredBy_append,
          latest_append, Option.or_assoc]
        exact congrArg _ (step appId path)

theorem reports_eq (space : Workspace) (policy : OverwritePolicy) (root : Bytes) (proceeds : Bool)
    (packages : List Package) :
    (space.unpackQueue policy root proceeds packages).1 =
      (space.stages policy root proceeds packages).map fun (before, package) =>
        reportOf package (before.unpackPackage policy root package).1 := by
  induction packages generalizing space with
  | nil => rfl
  | cons package packages ih =>
    rw [unpackQueue_cons, stages]
    rcases unpacked : space.unpackPackage policy root package with ⟨result, after⟩
    dsimp only
    rw [List.map_cons, unpacked]
    cases stopOf proceeds package result with
    | some reason => rfl
    | none =>
      dsimp only
      rw [ih]

theorem warnMissing_warnings (space : Workspace) (package path : Bytes) (missing : List Bytes) :
    (space.warnMissing package path missing).context.warnings =
      space.context.warnings ++ missingWarnings package path missing := by
  rw [warnMissing, missingWarnings]
  by_cases named : missing.filter (· ≠ []) = []
  · rw [if_pos named, if_pos named, List.append_nil]
  · rw [if_neg named, if_neg named]
    rfl

/-- The check of modules that are registered: it counts the dependencies that are not, and warns of
them. -/
theorem checkDependencies_eq (space : Workspace) (package : Bytes) {records : List ScriptModule}
    {stands : ScriptModule → ScriptModule}
    (found : ∀ record ∈ records, (space.registry appId)[record.path]? = some (stands record)) :
    (space.checkDependencies package appId (records.map ScriptModule.path)).1 =
        (records.map fun record =>
          ((space.registry appId).missing (stands record).dependencies).length).sum ∧
      (space.checkDependencies package appId (records.map ScriptModule.path)).2.context.warnings =
        space.context.warnings ++ records.flatMap fun record =>
          missingWarnings package record.path
            ((space.registry appId).missing (stands record).dependencies) := by
  induction records generalizing space with
  | nil => exact ⟨rfl, (List.append_nil _).symm⟩
  | cons record records ih =>
    obtain ⟨first, others⟩ := List.forall_mem_cons.mp found
    have kept := registry_congr (space.warnMissing_registries package record.path
      ((space.registry appId).missing (stands record).dependencies)) appId
    obtain ⟨counts, warns⟩ := ih (space.warnMissing package record.path
      ((space.registry appId).missing (stands record).dependencies)) (by rwa [kept])
    rw [kept] at counts warns
    rw [List.map_cons, checkDependencies, first]
    dsimp only
    refine ⟨?_, ?_⟩
    · rw [counts, List.map_cons, List.sum_cons]
    · rw [warns, warnMissing_warnings, List.flatMap_cons, List.append_assoc]

private theorem missing_eq_unmet {registry : Registry} {known : List ScriptModule}
    (looksUp : ∀ path, registry[path]? = latest known path) (record : ScriptModule) :
    registry.missing record.dependencies = unmet known record := by
  rw [Registry.missing, unmet]
  apply List.filter_congr
  intro path _
  rw [Std.ExtTreeMap.contains_eq_isSome_getElem?, looksUp]
  by_cases absent : ∀ other ∈ known, other.path ≠ path
  · rw [latest_eq_none.mpr absent, decide_eq_true absent]
    rfl
  · rw [decide_eq_false absent]
    cases found : latest known path with
    | none => exact absurd (latest_eq_none.mp found) absent
    | some record => rfl

/-- A package that is unpacked registers all modules of its plan. Its check looks each of them up as it
stands then, against all modules that are known. -/
theorem unpackPackage_checked {package : Package} {report : PackageReport}
    (unpacked : space.unpackPackage policy root package = (.ok report, after))
    {known : List ScriptModule}
    (looksUp : ∀ path, (after.registry (space.appIdOf package.path))[path]? = latest known path) :
    ∃ contents, (space.readPackage (space.appIdOf package.path) package.path).1 = .ok contents ∧
      let plan := Plan.ofEntries space.platform.json space.context.settings package.path
        contents.bytes contents.entries
      space.modulesOf policy root package = Plan.modules plan ∧
        report.unresolved = ((Plan.modules plan).map fun record =>
          (unmet known (standing known record)).length).sum ∧
        after.context.warnings = space.context.warnings ++ plan.filterMap Action.warning? ++
          (Plan.modules plan).flatMap fun record =>
            missingWarnings package.path record.path (unmet known (standing known record)) := by
  have answer := space.unpacks policy root package
  obtain ⟨keyring, keyed⟩ := space.readPackage_keyring (space.appIdOf package.path) package.path
  rw [unpacked] at answer
  cases answer with
  | @done contents outcomes plan unresolved opened made _ read planned performs checks =>
    rw [read] at keyed
    obtain rfl : opened = space.withKeyring keyring := keyed
    have settings : (space.withKeyring keyring).context.settings = space.context.settings := rfl
    have platform : (space.withKeyring keyring).platform = space.platform := rfl
    rw [settings, platform] at planned
    obtain ⟨whole, warned⟩ := performed_eq performs
    refine ⟨contents, by rw [read], ?_⟩
    rw [planned]
    have registered := registered_of_performAll performs
    have checked := made.checkDependencies_registries package.path (space.appIdOf package.path)
      ((Plan.modules plan).map ScriptModule.path)
    rw [checks] at checked
    rw [registry_congr checked] at looksUp
    have stands (record : ScriptModule) (member : record ∈ Plan.modules plan) :
        (made.registry (space.appIdOf package.path))[record.path]? =
          some (standing known record) := by
      have present := registered record member
      rw [Std.ExtTreeMap.mem_iff_isSome_getElem?, looksUp] at present
      rw [looksUp, standing]
      obtain ⟨last, found⟩ := Option.isSome_iff_exists.mp present
      rw [found]
      rfl
    obtain ⟨counts, warns⟩ := made.checkDependencies_eq package.path stands
    rw [checks] at counts warns
    simp only [missing_eq_unmet looksUp] at counts warns
    refine ⟨?_, counts, ?_⟩
    · rw [modulesOf, read]
      dsimp only
      rw [settings, platform, planned, whole]
    · rw [warns, warned]
      rfl

private theorem mem_registeredBy {record : ScriptModule} {stages : List (Workspace × Package)} :
    record ∈ registeredBy policy root appId stages ↔ ∃ start other, (start, other) ∈ stages ∧
      start.appIdOf other.path = appId ∧ record ∈ start.modulesOf policy root other := by
  rw [registeredBy, List.mem_flatMap]
  constructor
  · rintro ⟨⟨start, other⟩, member, registers⟩
    dsimp only at registers
    by_cases same : start.appIdOf other.path = appId
    · rw [if_pos same] at registers
      exact ⟨start, other, member, same, registers⟩
    · rw [if_neg same] at registers
      cases registers
  · rintro ⟨start, other, member, same, registers⟩
    refine ⟨(start, other), member, ?_⟩
    dsimp only
    rw [if_pos same]
    exact registers

theorem mem_registeredBy_take {record : ScriptModule} {stages : List (Workspace × Package)}
    {k : Nat} : record ∈ registeredBy policy root appId (stages.take (k + 1)) ↔
      ∃ i ≤ k, ∃ start other, stages[i]? = some (start, other) ∧
        start.appIdOf other.path = appId ∧ record ∈ start.modulesOf policy root other := by
  rw [mem_registeredBy]
  constructor
  · rintro ⟨start, other, member, same, registers⟩
    obtain ⟨i, found⟩ := List.mem_iff_getElem?.mp member
    rw [List.getElem?_take] at found
    by_cases early : i < k + 1
    · rw [if_pos early] at found
      exact ⟨i, Nat.le_of_lt_succ early, start, other, found, same, registers⟩
    · rw [if_neg early] at found
      cases found
  · rintro ⟨i, early, start, other, found, same, registers⟩
    refine ⟨start, other, List.mem_iff_getElem?.mpr ⟨i, ?_⟩, same, registers⟩
    rw [List.getElem?_take, if_pos (Nat.lt_succ_of_le early)]
    exact found

/-- The app of a package that was unpacked is in its report. -/
theorem appId_of_unpacked {package : Package} {report : PackageReport}
    (unpacked : (space.unpackPackage policy root package).1 = .ok report) :
    report.ok = true ∧ report.appId = space.appIdOf package.path := by
  have answer := space.unpacks policy root package
  rw [unpacked] at answer
  cases answer with
  | done => exact ⟨rfl, rfl⟩

theorem unpacked_of_reported {packages : List Package} {proceeds : Bool} {k : Nat}
    {report : PackageReport}
    (reported : (space.unpackQueue policy root proceeds packages).1[k]? = some report)
    (done : report.ok = true) :
    ∃ before package, (space.stages policy root proceeds packages)[k]? = some (before, package) ∧
      (before.unpackPackage policy root package).1 = .ok report := by
  rw [reports_eq, List.getElem?_map] at reported
  obtain ⟨⟨before, package⟩, reached, same⟩ := Option.map_eq_some_iff.mp reported
  refine ⟨before, package, reached, ?_⟩
  dsimp only at same
  cases unpacked : (before.unpackPackage policy root package).1 with
  | error failure =>
    rw [unpacked] at same
    rw [← same] at done
    cases done
  | ok report' =>
    rw [unpacked] at same
    rw [← same, reportOf]

theorem queued_of_stages {packages : List Package} {proceeds : Bool} {k : Nat}
    {before : Workspace} {package : Package}
    (reached : (space.stages policy root proceeds packages)[k]? = some (before, package)) :
    packages[k]? = some package := by
  obtain ⟨rest, whole⟩ := space.stages_prefix policy root proceeds packages
  have mapped : ((space.stages policy root proceeds packages).map Prod.snd)[k]? = some package := by
    rw [List.getElem?_map, reached]
    rfl
  rw [← whole, List.getElem?_append_left (List.getElem?_eq_some_iff.mp mapped).1]
  exact mapped

private theorem registeredBy_take {stages : List (Workspace × Package)} {k : Nat}
    {before : Workspace}
    {package : Package} (reached : stages[k]? = some (before, package)) :
    registeredBy policy root (before.appIdOf package.path) (stages.take (k + 1)) =
      registeredBy policy root (before.appIdOf package.path) (stages.take k) ++
        before.modulesOf policy root package := by
  rw [List.take_add_one, reached, Option.toList_some, registeredBy_append, registeredBy_singleton,
    if_pos rfl]

/-- After each package of a run that starts without modules, the modules stand that the packages up to
this one have registered. -/
theorem registry_after (fresh : space.context.registries = ∅) {packages : List Package}
    {proceeds : Bool} {k : Nat} {before : Workspace} {package : Package}
    (reached : (space.stages policy root proceeds packages)[k]? = some (before, package))
    (path : Bytes) :
    ((before.unpackPackage policy root package).2.registry (before.appIdOf package.path))[path]? =
      latest (registeredBy policy root (before.appIdOf package.path)
        ((space.stages policy root proceeds packages).take (k + 1))) path := by
  have empty : (space.registry (before.appIdOf package.path))[path]? = none := by
    rw [registry, fresh]
    simp
  obtain ⟨_, registered⟩ := space.stages_registry policy root proceeds packages reached
  rw [registry_unpackPackage, registered, empty, Option.or_none, ← latest_append,
    registeredBy_singleton, if_pos rfl, registeredBy_take reached]

/-- What the check of a package comes to, given the packages that the run reaches, the place of this one
among them, its plan and report, and the modules known for its app. -/
structure Resolves (policy : OverwritePolicy) (root : Bytes) (stages : List (Workspace × Package))
    (k : Nat) (before after : Workspace) (package : Package) (plan : List Action)
    (report : PackageReport) (known : List ScriptModule) : Prop where
  /-- A dependency is missed if no package up to this one has registered it for the same app. -/
  unmet_iff : ∀ record dependency, dependency ∈ unmet known record ↔
    dependency ∈ record.dependencies ∧
      ¬∃ i ≤ k, ∃ start other, stages[i]? = some (start, other) ∧
        start.appIdOf other.path = report.appId ∧
        ∃ registered ∈ start.modulesOf policy root other, registered.path = dependency
  /-- The package itself has registered all modules of its plan. -/
  own : before.modulesOf policy root package = Plan.modules plan
  /-- Each of them counts, with what the last one under its path misses. -/
  count : report.unresolved = ((Plan.modules plan).map fun record =>
    (unmet known (standing (Plan.modules plan) record)).length).sum
  /-- The check warns of just these dependencies. -/
  warned : after.context.warnings = before.context.warnings ++ plan.filterMap Action.warning? ++
    (Plan.modules plan).flatMap fun record => missingWarnings package.path record.path
      (unmet known (standing (Plan.modules plan) record))
  /-- What is registered is not missed, be it by itself or around a cycle. -/
  met : Plan.modules plan ⊆ known ∧ ∀ module ∈ known, ∀ record, module.path ∉ unmet known record
  /-- No subpackage misses a module of a main package of the same app that was unpacked. -/
  main : package.kind = .subpackage → ∀ start other done, (start, other) ∈ stages →
    other.kind = .main → (start.unpackPackage policy root other).1 = .ok done →
    done.appId = report.appId →
    ∀ registered ∈ start.modulesOf policy root other, ∀ record ∈ Plan.modules plan,
      registered.path ∉ unmet known (standing (Plan.modules plan) record)

/-- A run that starts without modules resolves dependencies across its packages: each package that it
unpacks misses exactly what neither itself nor a package before it, failed or not, has registered for
the same app. -/
theorem dependencies_resolved (fresh : space.context.registries = ∅) (policy : OverwritePolicy)
    (root : Bytes) (proceeds : Bool) (queue : Queue) {k : Nat} {report : PackageReport}
    (reported : (space.unpackQueue policy root proceeds queue.packages).1[k]? = some report)
    (done : report.ok = true) :
    ∃ before package contents after,
      (space.stages policy root proceeds queue.packages)[k]? = some (before, package) ∧
      queue.packages[k]? = some package ∧
      before.unpackPackage policy root package = (.ok report, after) ∧
      report.appId = space.appIdOf package.path ∧
      (before.readPackage report.appId package.path).1 = .ok contents ∧
      Resolves policy root (space.stages policy root proceeds queue.packages) k before after package
        (Plan.ofEntries space.platform.json space.context.settings package.path contents.bytes
          contents.entries) report
        (registeredBy policy root report.appId
          ((space.stages policy root proceeds queue.packages).take (k + 1))) := by
  obtain ⟨before, package, reached, unpacked⟩ := unpacked_of_reported reported done
  have settings := (space.stages_registry policy root proceeds _ reached).1
  have platform := platform_of_stages (List.mem_of_getElem? reached)
  have queued {i : Nat} {start : Workspace} {other : Package} :=
    @queued_of_stages space policy root queue.packages proceeds i start other
  have looksUp := registry_after fresh reached
  have whole := @registeredBy_take policy root _ _ _ _ reached
  have app := (appId_of_unpacked unpacked).2
  obtain ⟨after, made⟩ : ∃ after, before.unpackPackage policy root package = (.ok report, after) :=
    ⟨_, Prod.ext unpacked rfl⟩
  generalize space.stages policy root proceeds queue.packages = stages at *
  generalize knows : registeredBy policy root report.appId (stages.take (k + 1)) = known
  rw [← app, knows] at whole looksUp
  rw [app, made] at looksUp
  obtain ⟨contents, read, own, count, warned⟩ := unpackPackage_checked made looksUp
  rw [settings, platform] at own count warned
  rw [own] at whole
  generalize plans : Plan.ofEntries space.platform.json space.context.settings package.path
    contents.bytes contents.entries = plan at own count warned whole
  have stands (record : ScriptModule) (member : record ∈ Plan.modules plan) :
      standing known record = standing (Plan.modules plan) record := by
    rw [whole, standing_append _ member]
  have mem_known {record : ScriptModule} := @mem_registeredBy_take policy root report.appId record
    stages k
  rw [knows] at mem_known
  refine ⟨before, package, contents, after, reached, queued reached, made, ?_, ?_, ?_⟩
  · rw [app, appIdOf, appIdOf, settings]
  · rw [app, read]
  rw [plans]
  refine ⟨?unmet, own, ?count, ?warned, ?met, ?main⟩
  case unmet =>
    intro record dependency
    rw [mem_unmet]
    apply and_congr_right
    intro _
    constructor
    · rintro missed ⟨i, early, start, other, found, same, module, registers, named⟩
      exact missed module (mem_known.mpr ⟨i, early, start, other, found, same, registers⟩) named
    · intro absent module member named
      obtain ⟨i, early, start, other, found, same, registers⟩ := mem_known.mp member
      exact absent ⟨i, early, start, other, found, same, module, registers, named⟩
  case count =>
    rw [count]
    exact congrArg List.sum (List.map_congr_left fun record member => by rw [stands record member])
  case warned =>
    rw [warned]
    exact congrArg _ (List.flatMap_congr fun record member => by rw [stands record member])
  case met =>
    refine ⟨?_, fun module member record missed => (mem_unmet.mp missed).2 module member rfl⟩
    rw [whole]
    exact List.subset_append_right _ _
  case main =>
    intro sub start other done member kind unpacked' same module registers record _ missed
    obtain ⟨i, found⟩ := List.mem_iff_getElem?.mp member
    have early := Queue.index_le (queued found) kind (queued reached) sub
    have app' := (appId_of_unpacked unpacked').2
    have held : module ∈ known :=
      mem_known.mpr ⟨i, early, start, other, found, app'.symm.trans same, registers⟩
    exact (mem_unmet.mp missed).2 module held rfl

/-- A main package and a subpackage with a module each. The modules require each other, and the second
one also a module that does not exist. -/
def pairSpace : Workspace where
  disk :=
    [(utf8 "main", utf8 "define('m.js',function()\x7brequire('./n')\x7d)"),
      (utf8 "sub", utf8 "define('n.js',function()\x7brequire('./m');require('./x')\x7d)")].foldl
      (fun disk (name, bundle) =>
        (Output.put disk name (Container.encode [⟨utf8 "game.js", bundle⟩])).2) Disk.empty

def pairQueue : Queue := ⟨[utf8 "main"], [utf8 "sub"]⟩

/-- The subpackage misses the module that does not exist, and not the one of the main package. -/
theorem dependencies_resolved_sample :
    pairSpace.context.registries = ∅ ∧
      ∃ report,
        (pairSpace.unpackQueue .merge (utf8 "out") true pairQueue.packages).1[1]? = some report ∧
        report.ok = true ∧ report.unresolved = 1 ∧
        ∃ (before : Workspace) (package : Package) (contents : Contents) (after : Workspace),
          Resolves .merge (utf8 "out")
            (pairSpace.stages .merge (utf8 "out") true pairQueue.packages) 1 before after package
            (Plan.ofEntries .plain {} package.path contents.bytes contents.entries) report
            (registeredBy .merge (utf8 "out") report.appId
              ((pairSpace.stages .merge (utf8 "out") true pairQueue.packages).take 2)) := by
  have reports : (pairSpace.unpackQueue .merge (utf8 "out") true pairQueue.packages).1.map
      (fun report => (report.ok, report.unresolved)) = [(true, 1), (true, 1)] := by
    decide +kernel
  obtain ⟨first, rest, listed, _, others⟩ := List.map_eq_cons_iff.mp reports
  obtain ⟨second, rest, rfl, ends, _⟩ := List.map_eq_cons_iff.mp others
  obtain ⟨done, missed⟩ := Prod.mk.inj ends
  have reported :
      (pairSpace.unpackQueue .merge (utf8 "out") true pairQueue.packages).1[1]? = some second := by
    rw [listed]
    rfl
  obtain ⟨before, package, contents, after, _, _, _, _, _, resolves⟩ :=
    dependencies_resolved rfl .merge (utf8 "out") true pairQueue reported done
  exact ⟨rfl, second, reported, done, missed, before, package, contents, after, resolves⟩

end Workspace

end Unbundle
