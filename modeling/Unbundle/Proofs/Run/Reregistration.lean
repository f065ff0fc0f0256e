import Unbundle.Proofs.Bundle.Splitting
import Unbundle.Proofs.Run.Counters
import Unbundle.Proofs.Run.Dependencies
import Unbundle.Proofs.Run.Lockstep
import Unbundle.Proofs.Run.Parts
import Unbundle.Proofs.Run.Requirements

/-!
A module that a bundle registers once more. Main statement: the package leaves the same output,
index and modules as without the repeated call, and counts it as a module and a duplicate. Only the
check of dependencies tells the call apart: what the module misses is counted, and warned of, again.
-/

namespace Unbundle

open Ascii Disk Unbundle.Path Registration

theorem insert_eq_self {β : Type} {map : Std.ExtTreeMap Bytes β} {key : Bytes} {value : β}
    (found : map[key]? = some value) : map.insert key value = map := by
  apply Std.ExtTreeMap.ext_getElem?
  intro other
  rw [Std.ExtTreeMap.getElem?_insert]
  by_cases same : compare key other = .eq
  · rw [if_pos same, ← Std.LawfulEqCmp.eq_of_compare same, found]
  · rw [if_neg same]

theorem Output.find?_put {disk : Disk} {target : Bytes} (top : parent target = []) (content : Bytes)
    {place : Place} (apart : place ≠ disk.destination target) :
    (put disk target content).2.find? place = disk.find? place := by
  rw [put, makeParent, if_pos top]
  dsimp only
  cases written : disk.write target content with
  | error problem => rfl
  | ok after =>
    obtain ⟨other, located, placed⟩ := write_ok written
    dsimp only
    rw [find?_place? placed, if_neg]
    rintro rfl
    exact apart (destination_of_locate located).symm

/-- Whether a file of this path is a bundle. -/
def Settings.isBundlePath (settings : Settings) (path : Bytes) : Bool :=
  ContentKind.ofPath path = .script && lastSegment path ∈ settings.bundleNames

/-- The entries of a package with their contents. -/
def Contents.files (contents : Contents) : List Container.File :=
  contents.entries.map fun entry => ⟨entry.path, entry.content contents.bytes⟩

namespace Plan

variable {json : Json.Library} {settings : Settings} {names : List Bytes}
  {package source path : Bytes} {hasCommon : Bool} {calls : List Call} {record : ScriptModule}

/-- What is to be done with an entry, given by its path and its content. -/
def ofFile (json : Json.Library) (settings : Settings) (package : Bytes) (hasCommon : Bool)
    (file : Container.File) : List Action :=
  if settings.isBundlePath file.name then
    ofBundle settings.registrationNames (package ++ utf8 ":" ++ file.name) file.name file.content
  else
    .write .entry file.name file.content ::
      if file.name = AppConfig.fileName then ofConfig json package hasCommon file.content else []

theorem ofEntries_eq (json : Json.Library) (settings : Settings) (package : Bytes)
    (contents : Contents) :
    ofEntries json settings package contents.bytes contents.entries =
      contents.files.flatMap (ofFile json settings package
        (contents.files.any fun file => file.name = AppConfig.commonFileName)) := by
  rw [Contents.files, List.flatMap_map, List.any_map]
  rfl

private theorem modules_ofFile {file : Container.File}
    (plain : settings.isBundlePath file.name = false) :
    modules (ofFile json settings package hasCommon file) = [] := by
  rw [ofFile, plain, if_neg Bool.false_ne_true]
  by_cases config : file.name = AppConfig.fileName
  · rw [if_pos config]
    exact modules_ofConfig json package hasCommon file.content
  · rw [if_neg config]
    rfl

private theorem modules_ofFiles {files : List Container.File}
    (plain : ∀ file ∈ files, settings.isBundlePath file.name = false) :
    modules (files.flatMap (ofFile json settings package hasCommon)) = [] := by
  rw [modules, List.filterMap_flatMap, List.flatMap_eq_nil_iff]
  exact fun file member => modules_ofFile (plain file member)

/-- A written bundle goes into the modules of its calls, with a warning of those that register
none. -/
theorem ofBundle_render (words : ∀ name ∈ names, IsName name)
    (valid : ∀ call ∈ calls, call.Valid names) (filled : calls.filterMap Call.module? ≠ []) :
    ofBundle names source path (render calls) =
      skippedWarning source (calls.filterMap Call.defect?) ++
        (calls.filterMap Call.module?).flatMap (ofModule source) := by
  obtain ⟨items, history', walked, modules, defects⟩ := walk_calls (render calls).length
    (fun call member => (words call.name (Call.name_mem (valid call member))).isWord) valid {} []
  rw [List.append_nil, Script.Visitor.walk_nil, List.append_nil] at walked
  have found : Bundle.scan names (render calls) = items := walked
  have skipped : (items.filter fun item => item.module?.isNone).filterMap Bundle.Item.defect? =
      calls.filterMap Call.defect? := by
    rw [← defects, List.filterMap_filter]
    congr 1
    funext item
    cases item <;> rfl
  rw [ofBundle, Bundle.split, found, Bundle.Split.fallback, modules, skipped, if_neg]
  rwa [List.isEmpty_iff]

/-- What a plan has to do up to the last module of its bundle. -/
def upToBundle (json : Json.Library) (settings : Settings) (package : Bytes) (hasCommon : Bool)
    (front : List Container.File) (bundle : Bytes) (calls : List Call) : List Action :=
  front.flatMap (ofFile json settings package hasCommon) ++
    (skippedWarning (package ++ utf8 ":" ++ bundle) (calls.filterMap Call.defect?) ++
      (calls.filterMap Call.module?).flatMap (ofModule (package ++ utf8 ":" ++ bundle)))

variable {front back : List Container.File} {bundle : Bytes}

private theorem modules_upToBundle (plain : ∀ file ∈ front, settings.isBundlePath file.name = false)
    :
    modules (upToBundle json settings package hasCommon front bundle calls) =
      calls.filterMap Call.module? := by
  rw [upToBundle, modules_append, modules_append, modules_ofFiles plain, modules_ofModules,
    (skippedWarning_eq ..).2, List.nil_append, List.nil_append]

theorem offer_mem_upToBundle (member : record ∈ calls.filterMap Call.module?) :
    ⟨record.outputPath, record.body⟩ ∈
      offers (upToBundle json settings package hasCommon front bundle calls) := by
  rw [upToBundle, offers, List.filterMap_append, List.filterMap_append]
  apply List.mem_append_right
  apply List.mem_append_right
  rw [List.filterMap_flatMap]
  apply List.mem_flatMap.mpr
  refine ⟨record, member, ?_⟩
  rw [ofModule, List.filterMap_append]
  exact List.mem_append_right _ List.mem_cons_self

theorem upToBundle_concat {call : Call} (registers : call.module? = some record) :
    upToBundle json settings package hasCommon front bundle (calls ++ [call]) =
      upToBundle json settings package hasCommon front bundle calls ++
        [.write .module record.outputPath record.body, .register record] := by
  cases call with
  | other name argument => cases registers
  | register name path dependencies code =>
    obtain ⟨canonical, found, rfl⟩ := Option.map_eq_some_iff.mp registers
    rw [upToBundle, upToBundle, List.filterMap_append, List.filterMap_append,
      List.filterMap_cons_some registers, List.filterMap_cons_none rfl]
    simp only [List.filterMap_nil, List.append_nil, List.flatMap_append, List.append_assoc]
    rfl

/-- A plan with a module that is written and registered once more. -/
def again (record : ScriptModule) (first second : List Action) : List Action :=
  first ++ .write .module record.outputPath record.body :: .register record :: second

private theorem modules_again (record : ScriptModule) (first second : List Action) :
    modules (again record first second) = modules first ++ record :: modules second :=
  modules_append ..

theorem ofEntries_bundle {contents : Contents}
    (files : contents.files = front ++ ⟨bundle, render calls⟩ :: back)
    (script : settings.isBundlePath bundle = true)
    (words : ∀ name ∈ settings.registrationNames, IsName name)
    (valid : ∀ call ∈ calls, call.Valid settings.registrationNames)
    (filled : calls.filterMap Call.module? ≠ [])
    (common : ((front.map Container.File.name ++ bundle :: back.map Container.File.name).any
      fun name => name = AppConfig.commonFileName) = hasCommon) :
    ofEntries json settings package contents.bytes contents.entries =
      upToBundle json settings package hasCommon front bundle calls ++
        back.flatMap (ofFile json settings package hasCommon) := by
  have same : (contents.files.any fun file => file.name = AppConfig.commonFileName) =
      hasCommon := by
    rw [← common, files]
    simp [List.any_map, Function.comp_def]
  rw [ofEntries_eq, same, files, List.flatMap_append, List.flatMap_cons, ofFile, if_pos script,
    ofBundle_render words valid filled, upToBundle]
  simp only [List.append_assoc]

end Plan

/-- Two packages of the same files, but for the only bundle: that of the second has one more call at
the end. -/
structure Contents.Repeats (settings : Settings) (calls : List Call) (call : Call)
    (contents repeated : Contents) : Prop where
  wasSealed : repeated.wasSealed = contents.wasSealed
  files : ∃ front bundle back, settings.isBundlePath bundle = true ∧
    (∀ file ∈ front ++ back, settings.isBundlePath file.name = false) ∧
    contents.files = front ++ ⟨bundle, render calls⟩ :: back ∧
    repeated.files = front ++ ⟨bundle, render (calls ++ [call])⟩ :: back

/-- The second package has one plan with the first, but for the module that is written and
registered once more behind its bundle. -/
theorem Contents.Repeats.plans {settings : Settings} {calls : List Call} {call : Call}
    {contents repeated : Contents} {record : ScriptModule}
    (repeats : Contents.Repeats settings calls call contents repeated)
    (words : ∀ name ∈ settings.registrationNames, IsName name)
    (valid : ∀ call ∈ calls, call.Valid settings.registrationNames) (listed : call ∈ calls)
    (registers : call.module? = some record) (json : Json.Library) (package : Bytes) :
    ∃ first second,
      Plan.ofEntries json settings package contents.bytes contents.entries = first ++ second ∧
      Plan.ofEntries json settings package repeated.bytes repeated.entries =
        Plan.again record first second ∧
      Plan.modules first = calls.filterMap Call.module? ∧ Plan.modules second = [] ∧
      ⟨record.outputPath, record.body⟩ ∈ Plan.offers first := by
  obtain ⟨_, front, bundle, back, script, plain, files, files'⟩ := repeats
  obtain ⟨plainFront, plainBack⟩ := List.forall_mem_append.mp plain
  have member : record ∈ calls.filterMap Call.module? :=
    List.mem_filterMap.mpr ⟨call, listed, registers⟩
  have added : record ∈ (calls ++ [call]).filterMap Call.module? := by
    rw [List.filterMap_append]
    exact List.mem_append_left _ member
  have valid' : ∀ other ∈ calls ++ [call], other.Valid settings.registrationNames :=
    List.forall_mem_append.mpr ⟨valid, by simpa using valid call listed⟩
  refine ⟨_, _, Plan.ofEntries_bundle files script words valid (List.ne_nil_of_mem member) rfl, ?_,
    Plan.modules_upToBundle plainFront, Plan.modules_ofFiles plainBack,
    Plan.offer_mem_upToBundle member⟩
  rw [Plan.ofEntries_bundle files' script words valid' (List.ne_nil_of_mem added) rfl,
    Plan.upToBundle_concat registers, List.append_assoc]
  rfl

private theorem Contents.Repeats.length_eq {settings : Settings} {calls : List Call} {call : Call}
    {contents repeated : Contents}
    (repeats : Contents.Repeats settings calls call contents repeated) :
    repeated.entries.length = contents.entries.length := by
  obtain ⟨_, front, bundle, back, _, _, files, files'⟩ := repeats
  have length := congrArg List.length files
  have length' := congrArg List.length files'
  simp only [Contents.files, List.length_map, List.length_append, List.length_cons]
    at length length'
  rw [length, length']

theorem truncated_of_call {call : Call} {record : ScriptModule}
    (registers : call.module? = some record) : record.truncated = false := by
  cases call with
  | other name argument => cases registers
  | register name path dependencies code =>
    obtain ⟨canonical, found, rfl⟩ := Option.map_eq_some_iff.mp registers
    rfl

namespace Workspace

variable {space after : Workspace} {policy : OverwritePolicy} {root appId : Bytes}

theorem register_eq_self {record : ScriptModule}
    (stands : (space.registry appId)[record.path]? = some record) :
    space.register appId record = space := by
  have present : space.context.registries[appId]? = some (space.registry appId) := by
    rw [registry, Std.ExtTreeMap.getD_eq_getD_getElem?]
    cases found : space.context.registries[appId]? with
    | some registry => rfl
    | none =>
      rw [registry, Std.ExtTreeMap.getD_eq_getD_getElem?, found] at stands
      simp at stands
  rw [register, insert_eq_self stands, setRegistry, insert_eq_self present]

theorem write_known {path content : Bytes} (known : space.output.Knows path content)
    (policy : OverwritePolicy) (root : Bytes) :
    space.write policy root path content = (.ok .duplicate, space) := by
  have made : space.output.offer policy root ⟨path, content⟩ = (.ok .duplicate, space.output) :=
    Output.offer_known known policy root
  rw [Output.offer] at made
  rw [write, made]
  rfl

/-- A module that is registered and written once more leaves everything as it was, and its file is a
duplicate. -/
theorem performAll_repeated {first second : List Action} {record : ScriptModule}
    {outcomes : List Outcome}
    (performed : space.performAll appId policy root (first ++ second) = (.ok outcomes, after))
    (last : Registry.latest (Plan.modules first) record.path = some record)
    (offered : ⟨record.outputPath, record.body⟩ ∈ Plan.offers first) :
    ∃ before behind, outcomes = before ++ behind ∧
      space.performAll appId policy root (Plan.again record first second) =
        (.ok (before ++ .duplicate :: behind), after) := by
  rw [Plan.again, performAll_append]
  rw [performAll_append] at performed
  rcases made : space.performAll appId policy root first with ⟨failure | before, middle⟩
  · rw [made] at performed
    cases performed
  rw [made] at performed
  dsimp only at performed ⊢
  obtain ⟨same, ended⟩ := Prod.mk.inj performed
  obtain ⟨behind, others, rfl⟩ := map_eq_ok.mp same
  have known := knows_of_performAll made offered
  have stands : (middle.registry appId)[record.path]? = some record := by
    have stood := registry_performAll space policy root appId first appId record.path
    rw [made, if_pos rfl, (performed_eq made).1, last] at stood
    exact stood
  refine ⟨before, behind, rfl, ?_⟩
  have again : middle.performAll appId policy root
      (.write .module record.outputPath record.body :: .register record :: second) =
        (.ok (.duplicate :: behind), after) := by
    have rest : middle.performAll appId policy root second = (.ok behind, after) :=
      Prod.ext others ended
    rw [performAll, perform, write_known known]
    dsimp only [Except.map]
    rw [performAll, perform, register_eq_self stands]
    dsimp only
    rw [rest]
    rfl
  rw [again]
  rfl

theorem checkDependencies_concat {package : Bytes} {paths : List Bytes} {record : ScriptModule}
    (stands : (space.registry appId)[record.path]? = some record) :
    space.checkDependencies package appId (paths ++ [record.path]) =
      ((space.checkDependencies package appId paths).1 +
          ((space.registry appId).missing record.dependencies).length,
        (space.checkDependencies package appId paths).2.warnMissing package record.path
          ((space.registry appId).missing record.dependencies)) := by
  have kept := space.checkDependencies_registries package appId paths
  rw [checkDependencies_append]
  generalize (space.checkDependencies package appId paths).2 = checked at kept ⊢
  have same : checked.registry appId = space.registry appId := registry_congr kept appId
  rw [checkDependencies, same, stands]
  rfl

/-- What is left of a package once it was read goes as without the repeated module, up to the end of
the check. -/
theorem parts_repeated {made checked : Workspace} {first second : List Action}
    {record : ScriptModule} {outcomes : List Outcome} {package : Bytes} {unresolved : Nat}
    (performed : space.performAll appId policy root (first ++ second) = (.ok outcomes, made))
    (checks : made.checkDependencies package appId
      ((Plan.modules (first ++ second)).map ScriptModule.path) = (unresolved, checked))
    (none : Plan.modules second = [])
    (last : Registry.latest (Plan.modules first) record.path = some record)
    (offered : ⟨record.outputPath, record.body⟩ ∈ Plan.offers first) :
    ∃ before behind, outcomes = before ++ behind ∧
      space.performAll appId policy root (Plan.again record first second) =
        (.ok (before ++ .duplicate :: behind), made) ∧
      made.checkDependencies package appId
          ((Plan.modules (Plan.again record first second)).map ScriptModule.path) =
        (unresolved + ((checked.registry appId).missing record.dependencies).length,
          checked.warnMissing package record.path
            ((checked.registry appId).missing record.dependencies)) := by
  obtain ⟨before, behind, whole, again⟩ := performAll_repeated performed last offered
  have modules : Plan.modules (first ++ second) = Plan.modules first := by
    rw [Plan.modules_append, none, List.append_nil]
  have stands : (made.registry appId)[record.path]? = some record := by
    have stood := registry_performAll space policy root appId (first ++ second) appId record.path
    rw [performed, if_pos rfl, (performed_eq performed).1, modules, last] at stood
    exact stood
  have kept := made.checkDependencies_registries package appId
    ((Plan.modules (first ++ second)).map ScriptModule.path)
  rw [checks] at kept
  have same : checked.registry appId = made.registry appId := registry_congr kept appId
  refine ⟨before, behind, whole, again, ?_⟩
  have paths : (Plan.modules (Plan.again record first second)).map ScriptModule.path =
      (Plan.modules (first ++ second)).map ScriptModule.path ++ [record.path] := by
    rw [Plan.modules_again, none, modules, List.map_append]
    rfl
  rw [paths, checkDependencies_concat stands, checks, same]

private theorem missing_eq_nil_iff {registry : Registry} {record : ScriptModule} :
    registry.missing record.dependencies = [] ↔
      ∀ dependency ∈ record.dependencies, dependency ∈ registry := by
  rw [List.eq_nil_iff_forall_not_mem]
  simp only [Registry.mem_missing, not_and, not_not]

/-- What comes of a package with a repeated call, compared to what comes of it without. -/
structure Repeated (space other : Workspace) (package : Package) (record : ScriptModule)
    (report report' : PackageReport) (after after' : Workspace) : Prop where
  disk : ∀ place, after'.disk.find? place = after.disk.find? place ∨
    place = space.disk.destination package.path ∧
      after.disk.find? place = space.disk.find? place ∧
      after'.disk.find? place = other.disk.find? place
  outputs : after'.context.outputs = after.context.outputs
  registries : after'.context.registries = after.context.registries
  warnings : after'.context.warnings = after.context.warnings ++
    missingWarnings package.path record.path
      ((after.registry report.appId).missing record.dependencies)
  counted : report' = { report with
    modules := report.modules + 1
    duplicates := report.duplicates + 1
    bytecodeModules := report.bytecodeModules + if record.form = .bytecode then 1 else 0
    unresolved := report.unresolved +
      ((after.registry report.appId).missing record.dependencies).length }

/-- The check cannot tell the repeated call apart if all dependencies of its module are
registered. -/
theorem Repeated.same_iff {other after' : Workspace} {package : Package} {record : ScriptModule}
    {report report' : PackageReport}
    (repeated : Repeated space other package record report report' after after') :
    report'.unresolved = report.unresolved ∧ after'.context.warnings = after.context.warnings ↔
      ∀ dependency ∈ record.dependencies, dependency ∈ after.registry report.appId := by
  rw [repeated.counted, repeated.warnings, ← missing_eq_nil_iff]
  constructor
  · rintro ⟨count, _⟩
    exact List.length_eq_zero_iff.mp (Nat.add_eq_left.mp count)
  · intro none
    rw [none]
    exact ⟨rfl, List.append_nil _⟩

private theorem fileAt?_of_read {opened : Workspace} {path : Bytes} {contents : Contents}
    (read : space.readPackage appId path = (.ok contents, opened)) :
    ∃ bytes, space.disk.fileAt? path = some bytes := by
  rw [readPackage] at read
  cases found : space.readFile path with
  | error failure =>
    rw [found] at read
    cases read
  | ok bytes => exact ⟨bytes, (Device.read_eq_ok.mp found).1⟩

/-- Two workspaces that are alike apart from their keys. -/
def KeylessAlike (differ : Difference) (space other : Workspace) : Prop :=
  Alike differ (space.withKeyring {}) (other.withKeyring {})

namespace KeylessAlike

variable {differ : Difference} {other : Workspace}

theorem openRegistry (alike : KeylessAlike differ space other) (appId : Bytes) :
    KeylessAlike differ (space.openRegistry appId) (other.openRegistry appId) := by
  have same := alike.registry_eq appId
  have opened := alike.setRegistry appId (space.registry appId)
  rw [KeylessAlike, Workspace.openRegistry, Workspace.openRegistry]
  rwa [show other.registry appId = space.registry appId from same]

theorem performAll (alike : KeylessAlike differ space other)
    (shelters : space.Shelters differ root) {plan : List Action} {outcomes : List Outcome}
    (canonical : ∀ offer ∈ Plan.offers plan, Canonical offer.path)
    (performed : space.performAll appId policy root plan = (.ok outcomes, after)) :
    ∃ after', other.performAll appId policy root plan = (.ok outcomes, after') ∧
      KeylessAlike differ after after' := by
  have made := Alike.performAll alike shelters appId policy canonical
  rw [performAll_withKeyring, performAll_withKeyring, performed] at made
  exact ⟨(other.performAll appId policy root plan).2, Prod.ext made.1 rfl, made.2⟩

theorem checkDependencies (alike : KeylessAlike differ space other) (package appId : Bytes)
    (paths : List Bytes) :
    (other.checkDependencies package appId paths).1 =
        (space.checkDependencies package appId paths).1 ∧
      KeylessAlike differ (space.checkDependencies package appId paths).2
        (other.checkDependencies package appId paths).2 := by
  have checked := Alike.checkDependencies alike package appId paths
  rwa [checkDependencies_withKeyring, checkDependencies_withKeyring] at checked

theorem parts {made checked : Workspace} (alike : KeylessAlike differ space other)
    (shelters : space.Shelters differ root) {plan : List Action} {outcomes : List Outcome}
    {package : Bytes} {unresolved : Nat}
    (canonical : ∀ offer ∈ Plan.offers plan, Canonical offer.path)
    (performed : (space.openRegistry appId).performAll appId policy root plan =
      (.ok outcomes, made))
    (checks : made.checkDependencies package appId ((Plan.modules plan).map ScriptModule.path) =
      (unresolved, checked)) :
    ∃ made' checked',
      (other.openRegistry appId).performAll appId policy root plan = (.ok outcomes, made') ∧
      made'.checkDependencies package appId ((Plan.modules plan).map ScriptModule.path) =
        (unresolved, checked') ∧
      KeylessAlike differ checked checked' := by
  obtain ⟨made', performed', alikeMade⟩ :=
    (alike.openRegistry appId).performAll shelters canonical performed
  obtain ⟨count, alikeChecked⟩ := alikeMade.checkDependencies package appId
    ((Plan.modules plan).map ScriptModule.path)
  rw [checks] at count alikeChecked
  exact ⟨made', (made'.checkDependencies package appId _).2, performed', Prod.ext count rfl,
    alikeChecked⟩

theorem of_replaced {path old new : Bytes} (context : other.context = space.context)
    (platform : other.platform = space.platform) (current : other.disk.current = space.disk.current)
    (others : ∀ place, place ≠ space.disk.destination path →
      other.disk.find? place = space.disk.find? place)
    (found : space.disk.fileAt? path = some old) (found' : other.disk.fileAt? path = some new) :
    KeylessAlike (fun place content content' => place = space.disk.destination path ∧
        content = some old ∧ content' = some new) space other := by
  have same : other.disk.destination path = space.disk.destination path := by
    rw [destination, current]
    rfl
  obtain ⟨_, file, _⟩ := fileAt?_eq_some.mp found
  obtain ⟨_, file', _⟩ := fileAt?_eq_some.mp found'
  rw [same] at file'
  have index : other.context.outputs = space.context.outputs := by rw [context]
  have settings : other.context.settings = space.context.settings := by rw [context]
  have registries : other.context.registries = space.context.registries := by rw [context]
  have warnings : other.context.warnings = space.context.warnings := by rw [context]
  have device : other.platform.device = space.platform.device := by rw [platform]
  refine ⟨⟨⟨current, fun place => ?_, fun place => ?_⟩, index, device⟩, settings, platform,
    registries, warnings, Sealed.Keyring.sound_empty _, Sealed.Keyring.sound_empty _⟩
  · by_cases replaced : place = space.disk.destination path
    · rw [replaced]
      change other.disk.find? _ = _ ↔ space.disk.find? _ = _
      rw [file?_eq_some.mp file, file?_eq_some.mp file']
      exact iff_of_false (fun stands => by cases stands) (fun stands => by cases stands)
    · exact iff_of_eq (congrArg (· = _) (others place replaced))
  · by_cases replaced : place = space.disk.destination path
    · rw [replaced]
      exact .inr ⟨rfl, file, file'⟩
    · exact .inl (file?_congr (others place replaced))

theorem find?_cases {start start' : Disk} {path old new : Bytes}
    (alike : KeylessAlike (fun place content content' => place = start.destination path ∧
      content = some old ∧ content' = some new) after other)
    (found : start.file? (start.destination path) = some old)
    (found' : start'.file? (start.destination path) = some new) (place : Place) :
    other.disk.find? place = after.disk.find? place ∨
      place = start.destination path ∧ after.disk.find? place = start.find? place ∧
        other.disk.find? place = start'.find? place := by
  rcases alike.disk.file place with same | ⟨replaced, old, new⟩
  · exact .inl (find?_congr (alike.disk.directory place) same)
  · refine .inr ⟨replaced, ?_, ?_⟩
    · rw [replaced] at old ⊢
      exact (file?_eq_some.mp old).trans (file?_eq_some.mp found).symm
    · rw [replaced] at new ⊢
      exact (file?_eq_some.mp new).trans (file?_eq_some.mp found').symm

end KeylessAlike

theorem unpackPackage_of_parts {package : Package} {contents : Contents}
    {opened made checked : Workspace} {plan : List Action} {outcomes : List Outcome} {unresolved : Nat}
    (read : space.readPackage (space.appIdOf package.path) package.path = (.ok contents, opened))
    (planned : Plan.ofEntries opened.platform.json opened.context.settings package.path
      contents.bytes contents.entries = plan)
    (performed : (opened.openRegistry (space.appIdOf package.path)).performAll
      (space.appIdOf package.path) policy root plan = (.ok outcomes, made))
    (checks : made.checkDependencies package.path (space.appIdOf package.path)
      ((Plan.modules plan).map ScriptModule.path) = (unresolved, checked)) :
    space.unpackPackage policy root package =
      (.ok (reportDone package (space.appIdOf package.path) contents plan outcomes unresolved),
        checked) := by
  rw [unpackPackage]
  dsimp only
  rw [read]
  dsimp only
  rw [planned, performed]
  dsimp only
  rw [checks]
  rfl

theorem reportDone_repeated (package : Package) (appId : Bytes) {contents repeated : Contents}
    (wasSealed : repeated.wasSealed = contents.wasSealed)
    (length : repeated.entries.length = contents.entries.length) {record : ScriptModule}
    (complete : record.truncated = false) (first second : List Action)
    (before behind : List Outcome) (unresolved more : Nat) :
    reportDone package appId repeated (Plan.again record first second)
        (before ++ .duplicate :: behind) (unresolved + more) =
      let report :=
        reportDone package appId contents (first ++ second) (before ++ behind) unresolved
      { report with
        modules := report.modules + 1
        duplicates := report.duplicates + 1
        bytecodeModules := report.bytecodeModules + if record.form = .bytecode then 1 else 0
        unresolved := report.unresolved + more } := by
  have fallbacks : Plan.fallbacks (Plan.again record first second) =
      Plan.fallbacks (first ++ second) := by
    rw [Plan.again, Plan.fallbacks, Plan.fallbacks, List.filterMap_append, List.filterMap_append,
      List.count_append, List.count_append]
    rfl
  simp only [reportDone, wasSealed, length, Plan.modules_again, Plan.modules_append, fallbacks]
  simp only [PackageReport.mk.injEq, List.count_append, List.countP_append, List.countP_cons,
    List.length_append, List.length_cons, complete]
  simp [Nat.add_assoc]

/-- A package is unpacked with a repeated call at the end of its bundle if it is without, from a
workspace that differs in the file of the package only. The call must be one of the bundle, and the
last one there that registers its path. The same files are left, the same index and the same
modules; one module and one duplicate more are reported. What the module misses is counted once
more, and warned of, so the check comes to the same just if all its dependencies are registered. -/
theorem unpack_repeated {other opened opened' : Workspace} {package : Package}
    {contents repeated : Contents} {calls : List Call} {call : Call} {record : ScriptModule}
    {report : PackageReport} (context : other.context = space.context)
    (platform : other.platform = space.platform)
    (current : other.disk.current = space.disk.current)
    (others : ∀ place, place ≠ space.disk.destination package.path →
      other.disk.find? place = space.disk.find? place)
    (read : space.readPackage (space.appIdOf package.path) package.path = (.ok contents, opened))
    (read' : other.readPackage (other.appIdOf package.path) package.path =
      (.ok repeated, opened'))
    (repeats : Contents.Repeats space.context.settings calls call contents repeated)
    (words : ∀ name ∈ space.context.settings.registrationNames, IsName name)
    (valid : ∀ call ∈ calls, call.Valid space.context.settings.registrationNames)
    (listed : call ∈ calls) (registers : call.module? = some record)
    (last : Registry.latest (calls.filterMap Call.module?) record.path = some record)
    (done : space.unpackPackage policy root package = (.ok report, after)) :
    ∃ report' after', other.unpackPackage policy root package = (.ok report', after') ∧
      Repeated space other package record report report' after after' ∧
      (report'.unresolved = report.unresolved ∧
          after'.context.warnings = after.context.warnings ↔
        ∀ dependency ∈ record.dependencies, dependency ∈ after.registry report.appId) := by
  obtain ⟨file, found⟩ := fileAt?_of_read read
  obtain ⟨file', found'⟩ := fileAt?_of_read read'
  obtain ⟨_, old, _⟩ := fileAt?_eq_some.mp found
  obtain ⟨_, new, _⟩ := fileAt?_eq_some.mp found'
  have replaced := KeylessAlike.of_replaced context platform current others found found'
  have settings : other.context.settings = space.context.settings := by rw [context]
  have app : other.appIdOf package.path = space.appIdOf package.path := by
    rw [appIdOf, appIdOf, settings]
  obtain ⟨first, second, planned, planned', modules, none, offered⟩ :=
    repeats.plans words valid listed registers space.platform.json package.path
  have canonical (offer : Offer) (member : offer ∈ Plan.offers (Plan.again record first second)) :
      Canonical offer.path :=
    Plan.canonical_ofEntries (canonical_of_readPackage (congrArg Prod.fst read'))
      (planned' ▸ member)
  obtain ⟨keyring, keyed⟩ := space.readPackage_keyring (space.appIdOf package.path) package.path
  obtain ⟨keyring', keyed'⟩ := other.readPackage_keyring (other.appIdOf package.path) package.path
  obtain rfl : opened = space.withKeyring keyring := (congrArg Prod.snd read).symm.trans keyed
  obtain rfl : opened' = other.withKeyring keyring' := (congrArg Prod.snd read').symm.trans keyed'
  have unpacked := space.unpacks policy root package
  rw [done] at unpacked
  cases unpacked with
  | @done _ outcomes plan unresolved _ made _ reading planning performed checks =>
  obtain ⟨rfl, rfl⟩ := Prod.mk.inj (reading.symm.trans read) |>.imp_left Except.ok.inj
  obtain rfl : first ++ second = plan := planned.symm.trans planning
  obtain ⟨before, behind, rfl, again, checksAgain⟩ :=
    parts_repeated performed checks none (modules ▸ last) offered
  have alike : KeylessAlike _ (space.withKeyring keyring) (other.withKeyring keyring') := replaced
  obtain ⟨made', after', performed', checks', ended⟩ := alike.parts
    (fun _ _ _ _ _ _ differs => by rw [differs.2.1, differs.2.2]; simp) canonical again checksAgain
  have redone := unpackPackage_of_parts read' (settings ▸ platform ▸ planned') (app ▸ performed')
    (app ▸ checks')
  rw [app, reportDone_repeated package _ repeats.wasSealed repeats.length_eq
    (truncated_of_call registers)] at redone
  refine ⟨_, after', redone, ?_⟩
  suffices ends : Repeated space other package record _ _ after after' from ⟨ends, ends.same_iff⟩
  have warned := (warnMissing_sameOutput after package.path record.path
    ((after.registry (space.appIdOf package.path)).missing record.dependencies)).1
  have disk : (after.warnMissing package.path record.path
      ((after.registry (space.appIdOf package.path)).missing record.dependencies)).disk =
        after.disk := congrArg Output.disk warned
  have led : other.disk.destination package.path = space.disk.destination package.path := by
    rw [destination, current]
    rfl
  rw [led] at new
  exact {
    disk := fun place => disk ▸ ended.find?_cases old new place
    outputs := ended.output.index.trans (congrArg Output.index warned)
    registries := ended.registries.trans (warnMissing_registries ..)
    warnings := ended.warnings.trans (warnMissing_warnings after package.path record.path _)
    counted := rfl }

/-- A package whose bundle consists of some calls. -/
def callsSpace (calls : List Call) : Workspace where
  disk := (Output.put Disk.empty (utf8 "p") (Container.encode [⟨utf8 "game.js", render calls⟩])).2

def callsPackage : Package := ⟨utf8 "p", .subpackage⟩

/-- The package with one more call in its place. -/
def repeatedSpace (calls : List Call) (call : Call) : Workspace where
  disk := (Output.put (callsSpace calls).disk (utf8 "p")
    (Container.encode [⟨utf8 "game.js", render (calls ++ [call])⟩])).2

/-- A module that requires another one, which is compiled. -/
def linkedCalls : List Call :=
  [.register (utf8 "define") (utf8 "m") none (.source (utf8 "require('./n')")),
    .register (utf8 "define") (utf8 "n.js") none (.compiled [nul, rightBrace])]

def linkedCall : Call := .register (utf8 "define") (utf8 "n.js") none (.compiled [nul, rightBrace])

def linkedModule : ScriptModule where
  path := utf8 "n.js"
  dependencies := ∅
  body := [nul, rightBrace]
  form := .bytecode
  truncated := false

theorem unpack_repeated_sample :
    ∃ report report' after after',
      (callsSpace linkedCalls).unpackPackage .merge (utf8 "out") callsPackage =
          (.ok report, after) ∧
        (repeatedSpace linkedCalls linkedCall).unpackPackage .merge (utf8 "out") callsPackage =
          (.ok report', after') ∧
        report'.modules = report.modules + 1 ∧ report'.duplicates = report.duplicates + 1 ∧
        report'.bytecodeModules = report.bytecodeModules + 1 ∧
        after'.context.outputs = after.context.outputs := by
  have files : ((callsSpace linkedCalls).readPackage
      ((callsSpace linkedCalls).appIdOf callsPackage.path) callsPackage.path).1.map
        (fun contents => (contents.wasSealed, contents.files)) =
          .ok (false, [⟨utf8 "game.js", render linkedCalls⟩]) := by
    decide +kernel
  have files' : ((repeatedSpace linkedCalls linkedCall).readPackage
      ((repeatedSpace linkedCalls linkedCall).appIdOf callsPackage.path) callsPackage.path).1.map
        (fun contents => (contents.wasSealed, contents.files)) =
          .ok (false, [⟨utf8 "game.js", render (linkedCalls ++ [linkedCall])⟩]) := by
    decide +kernel
  have done : ((callsSpace linkedCalls).unpackPackage .merge (utf8 "out") callsPackage).1.map
      PackageReport.ok = .ok true := by
    decide +kernel
  have context : (repeatedSpace linkedCalls linkedCall).context =
      (callsSpace linkedCalls).context := rfl
  obtain ⟨contents, read, same⟩ := map_eq_ok.mp files
  obtain ⟨repeated, read', same'⟩ := map_eq_ok.mp files'
  obtain ⟨report, unpacked, _⟩ := map_eq_ok.mp done
  obtain ⟨wasSealed, listed⟩ := Prod.mk.inj same
  obtain ⟨wasSealed', listed'⟩ := Prod.mk.inj same'
  have repeats : Contents.Repeats {} linkedCalls linkedCall contents repeated :=
    ⟨wasSealed'.trans wasSealed.symm, [], utf8 "game.js", [], by decide +kernel, by simp, listed,
      listed'⟩
  have registers : linkedCall.module? = some linkedModule := by decide +kernel
  have unpacked : (callsSpace linkedCalls).unpackPackage .merge (utf8 "out") callsPackage =
      (.ok report, _) := Prod.ext unpacked rfl
  have reading : (callsSpace linkedCalls).readPackage
      ((callsSpace linkedCalls).appIdOf callsPackage.path) callsPackage.path =
        (.ok contents, _) := Prod.ext read rfl
  have reading' : (repeatedSpace linkedCalls linkedCall).readPackage
      ((repeatedSpace linkedCalls linkedCall).appIdOf callsPackage.path) callsPackage.path =
        (.ok repeated, _) := Prod.ext read' rfl
  obtain ⟨report', after', again, ends, _⟩ := unpack_repeated context rfl (by decide +kernel)
    (fun place apart => Output.find?_put (by decide +kernel) _ apart) reading reading' repeats
    (by decide +kernel) (by decide +kernel) (by decide +kernel) registers (by decide +kernel)
    unpacked
  refine ⟨report, report', _, after', unpacked, again, ?_, ?_, ?_, ends.outputs⟩ <;>
    rw [ends.counted]
  exact congrArg (report.bytecodeModules + ·) (if_pos rfl)

/-- A module that requires one that is not there. -/
def strayCall : Call := .register (utf8 "define") (utf8 "m") none (.source (utf8 "require('./x')"))

/-- A dependency that is not met counts once for each call of its module, and is warned of as often,
so a repeated call does make a difference. -/
theorem unresolved_again :
    (∀ name ∈ [utf8 "define"], IsName name) ∧ strayCall.Valid [utf8 "define"] ∧
      Registry.latest ([strayCall].filterMap Call.module?) (utf8 "m") = strayCall.module? ∧
      let first := (callsSpace [strayCall]).unpackPackage .merge (utf8 "out") callsPackage
      let second :=
        (repeatedSpace [strayCall] strayCall).unpackPackage .merge (utf8 "out") callsPackage
      first.1.map PackageReport.unresolved = .ok 1 ∧ first.2.context.warnings.length = 1 ∧
        second.1.map PackageReport.unresolved = .ok 2 ∧ second.2.context.warnings.length = 2 := by
  decide +kernel

end Workspace

end Unbundle
