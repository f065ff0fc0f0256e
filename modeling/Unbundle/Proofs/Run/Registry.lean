import Unbundle.Proofs.Output.History
import Unbundle.Proofs.Run.Confinement

/-!
What a run knows of the modules it has registered. Main statement: at every point of a run each of
them stands under its own canonical path, and its body under its output path in the index.
-/

namespace Unbundle

open Ascii Unbundle.Path

namespace Output

/-- Whether the index knows a content as the one that was taken for a path. -/
def Knows (output : Output) (path content : Bytes) : Prop :=
  ∃ print, output.index[path]? = some print ∧ print.agrees (.ofContent content) = true

variable {policy : OverwritePolicy} {root : Bytes} {output : Output}

/-- What the index knows is never changed. -/
theorem offer_index {path : Bytes} {print : Fingerprint}
    (recorded : output.index[path]? = some print) (offer : Offer) :
    (output.offer policy root offer).2.index[path]? = some print := by
  have answer := answers output policy root offer
  have other (fresh : output.index[offer.path]? = none) :
      (output.index.insert offer.path (.ofContent offer.content))[path]? = some print := by
    rw [Std.ExtTreeMap.getElem?_insert]
    simp only [Std.LawfulEqCmp.compare_eq_iff_eq]
    by_cases same : offer.path = path
    · rw [same, recorded] at fresh
      cases fresh
    · rw [if_neg same]
      exact recorded
  generalize (output.offer policy root offer).1 = result,
    (output.offer policy root offer).2 = after at answer ⊢
  cases answer with
  | duplicate | collision | unseen | failed | cut => exact recorded
  | kept fresh keeps => exact other fresh
  | written fresh free whole put => exact other fresh

/-- An offer that does not fail is known from then on. -/
theorem offer_knows {offer : Offer} {outcome : Outcome}
    (taken : (output.offer policy root offer).1 = .ok outcome) :
    (output.offer policy root offer).2.Knows offer.path offer.content := by
  have answer := answers output policy root offer
  rw [taken] at answer
  have recorded (output : Output) :
      (output.record offer.path (.ofContent offer.content)).Knows offer.path offer.content :=
    ⟨_, Std.ExtTreeMap.getElem?_insert_self, Fingerprint.agrees_self _⟩
  generalize (output.offer policy root offer).2 = after at answer ⊢
  cases answer with
  | duplicate recorded agrees => exact ⟨_, recorded, agrees⟩
  | kept fresh keeps => exact recorded _
  | written fresh free whole put => exact recorded _

end Output

namespace Plan

/-- Whether every module that a plan registers has a canonical path and is offered before, by the plan
itself or among the files done. -/
def Backed (done : List Offer) : List Action → Prop
  | [] => True
  | action :: plan =>
    (∀ record, action.module? = some record →
      Canonical record.path ∧ ⟨record.outputPath, record.body⟩ ∈ done) ∧
      Backed (done ++ action.offer?.toList) plan

variable {done more : List Offer} {first second : List Action}

theorem Backed.mono {plan : List Action} (backed : Backed done plan) (subset : done ⊆ more) :
    Backed more plan := by
  induction plan generalizing done more with
  | nil => trivial
  | cons action plan ih =>
    obtain ⟨here, later⟩ := backed
    refine ⟨fun record registers => ?_, ih later (List.append_subset.mpr
      ⟨List.subset_append_of_subset_left _ subset, List.subset_append_right _ _⟩)⟩
    obtain ⟨canonical, offered⟩ := here record registers
    exact ⟨canonical, subset offered⟩

theorem Backed.append (before : Backed done first) (after : Backed done second) :
    Backed done (first ++ second) := by
  induction first generalizing done with
  | nil => exact after
  | cons action first ih =>
    obtain ⟨here, later⟩ := before
    exact ⟨here, ih later (after.mono (List.subset_append_left _ _))⟩

theorem Backed.of_append (backed : Backed done (first ++ second)) : Backed done first := by
  induction first generalizing done with
  | nil => trivial
  | cons action first ih => exact ⟨backed.1, ih backed.2⟩

private theorem backed_flatMap {α : Type} {parts : List α} {plan : α → List Action}
    (backed : ∀ part ∈ parts, Backed done (plan part)) : Backed done (parts.flatMap plan) := by
  induction parts with
  | nil => trivial
  | cons part parts ih =>
    rw [List.flatMap_cons]
    exact (backed part List.mem_cons_self).append
      (ih fun other member => backed other (List.mem_cons_of_mem _ member))

/-- A plan that registers nothing needs nothing. -/
theorem backed_of_modules_nil {plan : List Action} (none : modules plan = []) :
    Backed done plan := by
  induction plan generalizing done with
  | nil => trivial
  | cons action plan ih =>
    rw [modules, List.filterMap_cons] at none
    cases registers : action.module? with
    | none =>
      rw [registers] at none
      refine ⟨fun record found => ?_, ih none⟩
      cases registers.symm.trans found
    | some record =>
      rw [registers] at none
      cases none

private theorem backed_ofModule {record : ScriptModule} (canonical : Canonical record.path)
    (source : Bytes) : Backed done (ofModule source record) := by
  have made : Backed done
      [.write .module record.outputPath record.body, .register record] := by
    refine ⟨(fun _ registers => by cases registers), ⟨fun other registers => ?_, trivial⟩⟩
    obtain rfl : record = other := Option.some.inj registers
    exact ⟨canonical, List.mem_append_right _ (List.mem_singleton_self _)⟩
  rw [ofModule]
  by_cases truncated : record.truncated = true
  · rw [if_pos truncated]
    exact ⟨(fun _ registers => by cases registers), made.mono (List.subset_append_left _ _)⟩
  · rw [if_neg truncated]
    exact made

private theorem backed_ofBundle (names : List Bytes) (source path text : Bytes) :
    Backed done (ofBundle names source path text) := by
  rw [ofBundle]
  by_cases fallback : (Bundle.split names text).fallback = true
  · rw [if_pos fallback]
    exact backed_of_modules_nil rfl
  · rw [if_neg fallback]
    apply Backed.append
    · apply backed_of_modules_nil
      cases (Bundle.split names text).skipped.filterMap Bundle.Item.defect? <;> rfl
    · apply backed_flatMap
      intro record member
      exact backed_ofModule (Bundle.canonical_of_mem_modules member) source

theorem modules_ofConfig (json : Json.Library) (source : Bytes) (hasCommon : Bool) (text : Bytes) :
    modules (ofConfig json source hasCommon text) = [] := by
  rw [ofConfig]
  cases AppConfig.split text json with
  | error defect => rfl
  | ok files => simp [modules, Action.module?]

theorem backed_ofEntries (json : Json.Library) (settings : Settings) (package bytes : Bytes)
    (entries : List Container.Entry) :
    Backed done (ofEntries json settings package bytes entries) := by
  apply backed_flatMap
  intro entry _
  rw [ofEntry]
  by_cases bundle : settings.isBundle entry = true
  · rw [if_pos bundle]
    exact backed_ofBundle ..
  · rw [if_neg bundle]
    apply backed_of_modules_nil
    by_cases config : entry.path = AppConfig.fileName
    · rw [if_pos config]
      exact modules_ofConfig ..
    · rw [if_neg config]
      rfl

end Plan

namespace Workspace

variable {space middle after : Workspace} {policy : OverwritePolicy} {root : Bytes}

private theorem registry_setRegistry (space : Workspace) (appId : Bytes) (registry : Registry)
    (other : Bytes) : (space.setRegistry appId registry).registry other =
      if appId = other then registry else space.registry other := by
  rw [setRegistry, Workspace.registry, Std.ExtTreeMap.getD_insert]
  simp only [Std.LawfulEqCmp.compare_eq_iff_eq]
  rfl

theorem registry_openRegistry (space : Workspace) (appId other : Bytes) :
    (space.openRegistry appId).registry other = space.registry other := by
  rw [openRegistry, registry_setRegistry]
  by_cases same : appId = other
  · rw [if_pos same, same]
  · rw [if_neg same]

theorem registry_register (space : Workspace) (appId : Bytes) (record : ScriptModule)
    (other path : Bytes) : ((space.register appId record).registry other)[path]? =
      if appId = other ∧ record.path = path then some record else (space.registry other)[path]? := by
  rw [register, registry_setRegistry]
  by_cases same : appId = other
  · rw [if_pos same, Std.ExtTreeMap.getElem?_insert]
    simp only [Std.LawfulEqCmp.compare_eq_iff_eq, same, true_and]
  · rw [if_neg same, if_neg fun both => same both.1]

/-- A change that forgets no module and nothing of the index. -/
structure Enlarges (space after : Workspace) : Prop where
  keys : ∀ appId (path : Bytes), path ∈ space.registry appId → path ∈ after.registry appId
  index : ∀ (path : Bytes) (print : Fingerprint), space.context.outputs[path]? = some print →
    after.context.outputs[path]? = some print

namespace Enlarges

theorem refl (space : Workspace) : Enlarges space space := ⟨fun _ _ => id, fun _ _ => id⟩

theorem trans (first : Enlarges space middle) (second : Enlarges middle after) :
    Enlarges space after :=
  ⟨fun appId path => second.keys appId path ∘ first.keys appId path,
    fun path print => second.index path print ∘ first.index path print⟩

/-- What concerns neither modules nor outputs. -/
theorem of_eq (registries : after.context.registries = space.context.registries)
    (outputs : after.context.outputs = space.context.outputs) : Enlarges space after := by
  constructor
  · intro appId path
    rw [registry, registry, registries]
    exact id
  · intro path print
    rw [outputs]
    exact id

theorem knows (enlarges : Enlarges space after) {path content : Bytes}
    (known : space.output.Knows path content) : after.output.Knows path content := by
  obtain ⟨print, recorded, agrees⟩ := known
  exact ⟨print, enlarges.index path print recorded, agrees⟩

end Enlarges

/-- Whether each module stands under its own canonical path, and its body under its output path in the
index. -/
def Grounded (space : Workspace) : Prop :=
  ∀ appId (path : Bytes) (record : ScriptModule), (space.registry appId)[path]? = some record →
    record.path = path ∧ Canonical path ∧ space.output.Knows record.outputPath record.body

theorem grounded_of_empty (empty : space.context.registries = ∅) : space.Grounded := by
  intro appId path record found
  rw [registry, empty] at found
  simp at found

theorem Grounded.of_eq (grounded : space.Grounded)
    (registries : after.context.registries = space.context.registries)
    (outputs : after.context.outputs = space.context.outputs) : after.Grounded := by
  intro appId path record found
  rw [registry, registries] at found
  obtain ⟨same, canonical, known⟩ := grounded appId path record found
  exact ⟨same, canonical, (Enlarges.of_eq registries outputs).knows known⟩

private theorem perform_enlarges (space : Workspace) (policy : OverwritePolicy) (root appId : Bytes)
    (action : Action) : Enlarges space (space.perform appId policy root action).2 := by
  cases action with
  | complain text => exact .of_eq rfl rfl
  | warn source message => exact .of_eq rfl rfl
  | write origin path content =>
    exact ⟨fun _ _ => id, fun _ _ recorded => Output.offer_index recorded ⟨path, content⟩⟩
  | register record =>
    refine ⟨fun other path known => ?_, fun _ _ => id⟩
    rw [perform, Std.ExtTreeMap.mem_iff_isSome_getElem?, registry_register]
    rw [Std.ExtTreeMap.mem_iff_isSome_getElem?] at known
    by_cases same : appId = other ∧ record.path = path
    · rw [if_pos same]
      rfl
    · rw [if_neg same]
      exact known

/-- An action keeps the modules grounded if what it registers is. -/
theorem Grounded.perform (grounded : space.Grounded) {action : Action} {done : List Offer}
    (known : ∀ offer ∈ done, space.output.Knows offer.path offer.content)
    (backed : ∀ record, action.module? = some record →
      Canonical record.path ∧ ⟨record.outputPath, record.body⟩ ∈ done)
    (policy : OverwritePolicy) (root appId : Bytes) :
    (space.perform appId policy root action).2.Grounded := by
  cases action with
  | complain text => exact grounded.of_eq rfl rfl
  | warn source message => exact grounded.of_eq rfl rfl
  | write origin path content =>
    intro other path' record found
    obtain ⟨same, canonical, held⟩ := grounded other path' record found
    exact ⟨same, canonical, (space.perform_enlarges policy root appId _).knows held⟩
  | register record =>
    intro other path found' found
    obtain ⟨canonical, offered⟩ := backed record rfl
    rw [Workspace.perform, registry_register] at found
    by_cases same : appId = other ∧ record.path = path
    · rw [if_pos same] at found
      obtain rfl : record = found' := Option.some.inj found
      rw [← same.2]
      exact ⟨rfl, canonical, known _ offered⟩
    · rw [if_neg same] at found
      exact grounded other path found' found

/-- A plan stops at the first action that fails. -/
theorem performAll_cons (space : Workspace) (policy : OverwritePolicy) (root appId : Bytes)
    (action : Action) (plan : List Action) :
    (space.performAll appId policy root (action :: plan)).2 =
      match space.perform appId policy root action with
      | (.error _, next) => next
      | (.ok _, next) => (next.performAll appId policy root plan).2 := by
  rw [performAll]
  rcases space.perform appId policy root action with ⟨failure | outcome, next⟩
  · rfl
  · dsimp only
    rcases next.performAll appId policy root plan with ⟨failure | outcomes, final⟩ <;> rfl

theorem performAll_enlarges (space : Workspace) (policy : OverwritePolicy) (root appId : Bytes)
    (plan : List Action) : Enlarges space (space.performAll appId policy root plan).2 := by
  induction plan generalizing space with
  | nil => exact .refl space
  | cons action plan ih =>
    have step := space.perform_enlarges policy root appId action
    rw [performAll_cons]
    rcases performed : space.perform appId policy root action with ⟨failure | outcome, next⟩
    · rw [performed] at step
      exact step
    · rw [performed] at step
      exact step.trans (ih next)

/-- Carrying out a plan keeps the modules grounded, also where it fails. -/
theorem Grounded.performAll (grounded : space.Grounded) {plan : List Action} {done : List Offer}
    (known : ∀ offer ∈ done, space.output.Knows offer.path offer.content)
    (backed : Plan.Backed done plan) (policy : OverwritePolicy) (root appId : Bytes) :
    (space.performAll appId policy root plan).2.Grounded := by
  induction plan generalizing space done with
  | nil => exact grounded
  | cons action plan ih =>
    obtain ⟨here, later⟩ := backed
    have step := grounded.perform known here policy root appId
    have grew := space.perform_enlarges policy root appId action
    obtain ⟨_, made⟩ := space.perform_output policy root appId action
    rw [performAll_cons]
    rcases performed : space.perform appId policy root action with ⟨failure | outcome, next⟩
    · rw [performed] at step
      exact step
    · rw [performed] at step grew made
      have still (offer : Offer) (member : offer ∈ done ++ action.offer?.toList) :
          next.output.Knows offer.path offer.content := by
        rcases List.mem_append.mp member with before | new
        · exact grew.knows (known offer before)
        · rw [Option.mem_toList] at new
          rw [new] at made
          obtain ⟨taken, output⟩ := made
          obtain ⟨outcome', answered, _⟩ := map_eq_ok.mp taken.symm
          rw [output]
          exact Output.offer_knows answered
      exact ih step still later

/-- Once a plan has been carried out, all its modules are registered. -/
theorem registered_of_performAll {plan : List Action} {appId : Bytes} {outcomes : List Outcome}
    (performed : space.performAll appId policy root plan = (.ok outcomes, after)) :
    ∀ record ∈ Plan.modules plan, record.path ∈ after.registry appId := by
  induction plan generalizing space outcomes with
  | nil => simp [Plan.modules]
  | cons action plan ih =>
    rw [performAll] at performed
    rcases first : space.perform appId policy root action with ⟨failure | outcome, next⟩
    · rw [first] at performed
      cases performed
    rw [first] at performed
    dsimp only at performed
    rcases others : next.performAll appId policy root plan with ⟨failure | rest, final⟩
    · rw [others] at performed
      cases performed
    rw [others] at performed
    obtain rfl : final = after := congrArg Prod.snd performed
    intro record member
    rw [Plan.modules, List.filterMap_cons] at member
    cases registers : action.module? with
    | none =>
      rw [registers] at member
      exact ih others record member
    | some record' =>
      rw [registers] at member
      rcases List.mem_cons.mp member with rfl | member
      · have kept := next.performAll_enlarges policy root appId plan
        rw [others] at kept
        apply kept.keys
        cases action with
        | register record =>
          cases registers
          cases first
          rw [Std.ExtTreeMap.mem_iff_isSome_getElem?, registry_register, if_pos ⟨rfl, rfl⟩]
          rfl
        | complain | warn | write => cases registers
      · exact ih others record member

/-- Reading a package changes the keys at most. -/
theorem readPackage_keyring (space : Workspace) (appId path : Bytes) :
    ∃ keyring, (space.readPackage appId path).2 = space.withKeyring keyring := by
  rw [readPackage]
  cases space.readFile path with
  | error failure => exact ⟨space.context.keyring, rfl⟩
  | ok bytes =>
    have opened : ∃ keyring, (space.openBytes appId bytes).2 = space.withKeyring keyring := by
      rw [openBytes]
      by_cases closed : Sealed.isSealed space.context.settings.sealing bytes = true
      · rw [if_pos closed]
        exact ⟨_, rfl⟩
      · rw [if_neg closed]
        exact ⟨space.context.keyring, rfl⟩
    dsimp only
    generalize space.openBytes appId bytes = result at opened ⊢
    obtain ⟨failure | ⟨wasSealed, clear⟩, after⟩ := result
    · exact opened
    · dsimp only
      cases Container.parse after.context.settings.maxEntryCount.toNat clear <;> exact opened

theorem warnMissing_registries (space : Workspace) (package path : Bytes) (missing : List Bytes) :
    (space.warnMissing package path missing).context.registries = space.context.registries := by
  rw [warnMissing]
  by_cases named : missing.filter (· ≠ []) = []
  · rw [if_pos named]
  · rw [if_neg named]
    rfl

theorem checkDependencies_registries (space : Workspace) (package appId : Bytes)
    (paths : List Bytes) :
    (space.checkDependencies package appId paths).2.context.registries =
      space.context.registries := by
  induction paths generalizing space with
  | nil => rfl
  | cons path paths ih =>
    rw [checkDependencies]
    exact (ih _).trans (warnMissing_registries ..)

/-- The check of dependencies as it goes while each module is found where it was registered: nothing
once one is not. -/
def checkFound (space : Workspace) (package appId : Bytes) :
    List Bytes → Option (Nat × Workspace)
  | [] => some (0, space)
  | path :: paths => do
    let record ← (space.registry appId)[path]?
    let missing := Registry.missing (space.registry appId) record.dependencies
    let (count, space) ← (space.warnMissing package path missing).checkFound package appId paths
    some (missing.length + count, space)

theorem checkFound_eq (space : Workspace) (package : Bytes) {appId : Bytes} {paths : List Bytes}
    (registered : ∀ path ∈ paths, path ∈ space.registry appId) :
    space.checkFound package appId paths =
      some (space.checkDependencies package appId paths) := by
  induction paths generalizing space with
  | nil => rfl
  | cons path paths ih =>
    obtain ⟨record, found⟩ := Option.isSome_iff_exists.mp
      (Std.ExtTreeMap.mem_iff_isSome_getElem?.mp (registered path List.mem_cons_self))
    rw [checkFound, checkDependencies, found]
    have rest := ih (space.warnMissing package path
      (Registry.missing (space.registry appId) record.dependencies)) (by
        intro other member
        rw [registry, warnMissing_registries]
        exact registered other (List.mem_cons_of_mem _ member))
    simp only [Option.bind_eq_bind, Option.bind_some, rest]

/-- Unpacking a package as it goes while each module that is looked up is found. -/
def unpackFound (space : Workspace) (policy : OverwritePolicy) (root : Bytes)
    (package : Package) : Option (Except Failure PackageReport × Workspace) :=
  let appId := space.appIdOf package.path
  match space.readPackage appId package.path with
  | (.error failure, opened) => some (.error failure, opened)
  | (.ok contents, opened) =>
    let plan :=
      Plan.ofEntries opened.platform.json opened.context.settings package.path contents.bytes
        contents.entries
    match (opened.openRegistry appId).performAll appId policy root plan with
    | (.error failure, after) => some (.error failure, after)
    | (.ok outcomes, after) => do
      let (unresolved, checked) ←
        after.checkFound package.path appId ((Plan.modules plan).map ScriptModule.path)
      some (.ok (reportDone package appId contents plan outcomes unresolved), checked)

theorem unpackFound_eq (space : Workspace) (policy : OverwritePolicy) (root : Bytes)
    (package : Package) :
    space.unpackFound policy root package = some (space.unpackPackage policy root package) := by
  have unpacked := space.unpacks policy root package
  rw [unpackFound]
  generalize same : space.unpackPackage policy root package = answer at unpacked ⊢
  obtain ⟨result, final⟩ := answer
  cases unpacked with
  | unread read => simp only [read]
  | failed read performed => simp only [read, performed]
  | done read planned performed checks =>
    subst planned
    have registered := registered_of_performAll performed
    have found := checkFound_eq _ package.path (List.forall_mem_map.mpr registered)
    simp only [read, performed, found, checks, Option.bind_eq_bind, Option.bind_some]

/-- Where a run can come from a workspace by unpacking packages, stopping inside one, and whatever
leaves modules and outputs as they are. -/
inductive Reaches (start : Workspace) : Workspace → Prop
  | refl : Reaches start start
  | unpack {space : Workspace} (reached : Reaches start space) (policy : OverwritePolicy)
      (root : Bytes) (package : Package) :
      Reaches start (space.unpackPackage policy root package).2
  | inside {space opened : Workspace} (reached : Reaches start space) (policy : OverwritePolicy)
      (root : Bytes) (package : Package) {contents : Contents}
      (read : space.readPackage (space.appIdOf package.path) package.path = (.ok contents, opened))
      {part : List Action}
      (begins : part <+: Plan.ofEntries opened.platform.json opened.context.settings package.path
        contents.bytes contents.entries) :
      Reaches start ((opened.openRegistry (space.appIdOf package.path)).performAll
        (space.appIdOf package.path) policy root part).2
  | elsewhere {space other : Workspace} (reached : Reaches start space)
      (registries : other.context.registries = space.context.registries)
      (outputs : other.context.outputs = space.context.outputs) : Reaches start other

private theorem openRegistry_enlarges (space : Workspace) (appId : Bytes) :
    Enlarges space (space.openRegistry appId) := by
  refine ⟨fun other path known => ?_, fun _ _ => id⟩
  rw [registry_openRegistry]
  exact known

theorem Grounded.openRegistry (grounded : space.Grounded) (appId : Bytes) :
    (space.openRegistry appId).Grounded := by
  intro other path record found
  rw [registry_openRegistry] at found
  exact grounded other path record found

/-- Carrying out a part of a package's plan forgets nothing and keeps the modules grounded. -/
theorem inside_package (space : Workspace) (policy : OverwritePolicy) (root : Bytes)
    (package : Package) {contents : Contents} {opened : Workspace}
    (read : space.readPackage (space.appIdOf package.path) package.path = (.ok contents, opened))
    {part : List Action}
    (begins : part <+: Plan.ofEntries opened.platform.json opened.context.settings package.path
      contents.bytes contents.entries) :
    Enlarges space ((opened.openRegistry (space.appIdOf package.path)).performAll
        (space.appIdOf package.path) policy root part).2 ∧
      (space.Grounded → ((opened.openRegistry (space.appIdOf package.path)).performAll
        (space.appIdOf package.path) policy root part).2.Grounded) := by
  obtain ⟨keyring, same⟩ := space.readPackage_keyring (space.appIdOf package.path) package.path
  obtain rfl : opened = space.withKeyring keyring := (congrArg Prod.snd read).symm.trans same
  have keyed : Enlarges space (space.withKeyring keyring) := .of_eq rfl rfl
  refine ⟨(keyed.trans (openRegistry_enlarges _ _)).trans (performAll_enlarges ..), ?_⟩
  intro grounded
  obtain ⟨rest, planned⟩ := begins
  have backed : Plan.Backed [] (Plan.ofEntries (space.withKeyring keyring).platform.json
      (space.withKeyring keyring).context.settings package.path contents.bytes contents.entries) :=
    Plan.backed_ofEntries ..
  rw [← planned] at backed
  have started : (space.withKeyring keyring).Grounded := grounded.of_eq rfl rfl
  exact (started.openRegistry _).performAll (by simp) backed.of_append policy root _

theorem unpackPackage_grounded (space : Workspace) (policy : OverwritePolicy) (root : Bytes)
    (package : Package) :
    Enlarges space (space.unpackPackage policy root package).2 ∧
      (space.Grounded → (space.unpackPackage policy root package).2.Grounded) := by
  have unpacked := space.unpacks policy root package
  generalize (space.unpackPackage policy root package).1 = result,
    (space.unpackPackage policy root package).2 = final at unpacked ⊢
  cases unpacked with
  | unread read =>
    obtain ⟨keyring, same⟩ := space.readPackage_keyring (space.appIdOf package.path) package.path
    obtain rfl : final = space.withKeyring keyring := (congrArg Prod.snd read).symm.trans same
    exact ⟨.of_eq rfl rfl, fun grounded => grounded.of_eq rfl rfl⟩
  | failed read performed =>
    have step := space.inside_package policy root package read List.prefix_rfl
    rw [performed] at step
    exact step
  | @done contents outcomes plan unresolved opened after _ read planned performed checks =>
    have step := space.inside_package policy root package read List.prefix_rfl
    have output := after.checkDependencies_sameOutput package.path (space.appIdOf package.path)
      ((Plan.modules plan).map ScriptModule.path)
    have registries := after.checkDependencies_registries package.path
      (space.appIdOf package.path) ((Plan.modules plan).map ScriptModule.path)
    rw [planned, performed] at step
    rw [checks] at output registries
    have outputs := congrArg Output.index output.1
    exact ⟨step.1.trans (.of_eq registries outputs),
      fun grounded => (step.2 grounded).of_eq registries outputs⟩

namespace Reaches

variable {start : Workspace}

private theorem enlarges (reached : Reaches start space) : Enlarges start space := by
  induction reached with
  | refl => exact .refl start
  | @unpack space reached policy root package ih =>
    exact ih.trans (space.unpackPackage_grounded policy root package).1
  | @inside space opened reached policy root package contents read part begins ih =>
    exact ih.trans (space.inside_package policy root package read begins).1
  | elsewhere reached registries outputs ih => exact ih.trans (.of_eq registries outputs)

theorem grounded (reached : Reaches start space) (grounded : start.Grounded) :
    space.Grounded := by
  induction reached with
  | refl => exact grounded
  | @unpack space reached policy root package ih =>
    exact (space.unpackPackage_grounded policy root package).2 ih
  | @inside space opened reached policy root package contents read part begins ih =>
    exact (space.inside_package policy root package read begins).2 ih
  | elsewhere reached registries outputs ih => exact ih.of_eq registries outputs

end Reaches

/-- At every point of a run that started with no modules, each registered module stands under its own
canonical path, and the index knows its body by size and digest under its output path. No path that
was registered is ever dropped, and the check of dependencies finds every module that it looks up. -/
theorem registries_grounded {start space : Workspace} (empty : start.context.registries = ∅)
    (reached : Reaches start space) :
    (∀ appId (path : Bytes) (record : ScriptModule), (space.registry appId)[path]? = some record →
        record.path = path ∧ path ≠ [] ∧
          (∀ segment ∈ segments path, segment ≠ [] ∧ segment ≠ here ∧ segment ≠ up) ∧
          ∃ print, space.context.outputs[match record.form with
              | .source => path
              | .bytecode => path ++ utf8 ".bc"]? = some print ∧
            print.size = record.body.length.toUInt64 ∧
            print.sha256 = Digest.Sha256.hash record.body) ∧
      (∀ later, Reaches space later →
        ∀ appId (path : Bytes), path ∈ space.registry appId → path ∈ later.registry appId) ∧
      ∀ policy root package, space.unpackFound policy root package =
        some (space.unpackPackage policy root package) := by
  have grounded := reached.grounded (grounded_of_empty empty)
  refine ⟨?_, fun later onward => onward.enlarges.keys, space.unpackFound_eq⟩
  intro appId path record found
  obtain ⟨rfl, canonical, print, recorded, agrees⟩ := grounded appId path record found
  refine ⟨rfl, canonical.ne_nil, fun segment => canonical.segment_ne, print, recorded, ?_⟩
  simpa [Fingerprint.agrees, Fingerprint.ofContent] using agrees

/-- Three packages with one module each under the same path: a source, compiled bytes, and another
source. -/
def bundleSpace : Workspace where
  disk :=
    [(utf8 "a", utf8 "define('m',function(){})"),
      (utf8 "b", utf8 "define('m'," ++ [0, 0, 0, 0, 1, 7] ++ utf8 ")"),
      (utf8 "c", utf8 "define('m',function(){;})")].foldl (fun disk (name, bundle) =>
        (Output.put disk name (Container.encode [⟨utf8 "game.js", bundle⟩])).2) Disk.empty

/-- The bundles one after the other; the last one collides with the first. -/
def bundleRun : Workspace :=
  [utf8 "a", utf8 "b", utf8 "c"].foldl (fun space path =>
    (space.unpackPackage .merge (utf8 "out") ⟨path, .subpackage⟩).2) bundleSpace

theorem registries_grounded_sample :
    bundleSpace.context.registries = ∅ ∧ Reaches bundleSpace bundleRun ∧
      (bundleRun.registry [])[utf8 "m"]? = some ⟨utf8 "m", ∅, [7], .bytecode, false⟩ ∧
      ∃ print, bundleRun.context.outputs[utf8 "m.bc"]? = some print ∧ print.size = 1 ∧
        print.sha256 = Digest.Sha256.hash [7] := by
  have reached : Reaches bundleSpace bundleRun :=
    ((Reaches.refl.unpack .merge (utf8 "out") ⟨utf8 "a", .subpackage⟩).unpack .merge (utf8 "out")
      ⟨utf8 "b", .subpackage⟩).unpack .merge (utf8 "out") ⟨utf8 "c", .subpackage⟩
  have found : (bundleRun.registry [])[utf8 "m"]? =
      some ⟨utf8 "m", ∅, [7], .bytecode, false⟩ := by decide +kernel
  obtain ⟨modules, _, _⟩ := registries_grounded rfl reached
  obtain ⟨_, _, _, known⟩ := modules [] (utf8 "m") _ found
  exact ⟨rfl, reached, found, known⟩

end Workspace

end Unbundle
