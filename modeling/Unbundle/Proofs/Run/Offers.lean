import Unbundle.Proofs.Output.Offers
import Unbundle.Proofs.Run.Platform

/-!
The files that a run offers to its output, package by package. Main statement: between preparing
the output root and concluding, a run changes the output by making these offers and in no other way.
-/

namespace Unbundle

def Action.offer? : Action → Option Offer
  | .write _ path content => some ⟨path, content⟩
  | .complain _ | .warn _ _ | .register _ => none

/-- The files of a plan. -/
def Plan.offers (plan : List Action) : List Offer := plan.filterMap Action.offer?

namespace Workspace

variable {policy : OverwritePolicy} {root : Bytes}

/-- Whether two workspaces have the same disk, outputs and settings. -/
def SameOutput (space other : Workspace) : Prop :=
  other.output = space.output ∧ other.context.settings = space.context.settings

namespace SameOutput

variable {space middle other : Workspace}

theorem refl (space : Workspace) : SameOutput space space := ⟨rfl, rfl⟩

theorem trans (first : SameOutput space middle) (second : SameOutput middle other) :
    SameOutput space other :=
  ⟨second.1.trans first.1, second.2.trans first.2⟩

end SameOutput

private theorem output_withOutput {space : Workspace} {output : Output}
    (same : output.device = space.platform.device) : (space.withOutput output).output = output := by
  obtain ⟨disk, index, device⟩ := output
  cases same
  rfl

theorem perform_output (space : Workspace) (policy : OverwritePolicy) (root appId : Bytes)
    (action : Action) :
    (space.perform appId policy root action).2.context.settings = space.context.settings ∧
      match action.offer? with
      | none => (space.perform appId policy root action).1 = .ok none ∧
          (space.perform appId policy root action).2.output = space.output
      | some offer =>
        (space.perform appId policy root action).1 =
            (space.output.offer policy root offer).1.map some ∧
          (space.perform appId policy root action).2.output =
            (space.output.offer policy root offer).2 := by
  cases action with
  | complain text => exact ⟨rfl, rfl, rfl⟩
  | warn source message => exact ⟨rfl, rfl, rfl⟩
  | write origin path content =>
    exact ⟨rfl, rfl, output_withOutput (space.output.offer_device policy root ⟨path, content⟩)⟩
  | register record => exact ⟨rfl, rfl, rfl⟩

/-- Carrying out a plan is offering its files, as far as the output can tell. -/
theorem performAll_output (space : Workspace) (policy : OverwritePolicy) (root appId : Bytes)
    (plan : List Action) :
    (space.performAll appId policy root plan).1 =
        (space.output.offerEach policy root (Plan.offers plan)).1 ∧
      (space.performAll appId policy root plan).2.output =
        (space.output.offerEach policy root (Plan.offers plan)).2 ∧
      (space.performAll appId policy root plan).2.context.settings = space.context.settings := by
  induction plan generalizing space with
  | nil => exact ⟨rfl, rfl, rfl⟩
  | cons action plan ih =>
    obtain ⟨settings, made⟩ := space.perform_output policy root appId action
    rw [performAll, Plan.offers, List.filterMap_cons]
    rcases performed : space.perform appId policy root action with ⟨result, after⟩
    rw [performed] at settings made
    obtain ⟨results, output, kept⟩ := ih after
    cases offered : action.offer? with
    | none =>
      rw [offered] at made
      obtain ⟨rfl, same⟩ := made
      rw [same] at results output
      dsimp only
      rw [← Plan.offers, ← results, ← output]
      rcases rest : after.performAll appId policy root plan with ⟨failure | outcomes, final⟩ <;>
        rw [rest] at kept <;> exact ⟨rfl, rfl, kept.trans settings⟩
    | some offer =>
      rw [offered] at made
      dsimp only at made ⊢
      rw [Output.offerEach, ← Plan.offers]
      rcases offering : space.output.offer policy root offer with ⟨failure | outcome, next⟩
      · rw [offering] at made
        obtain ⟨rfl, same⟩ := made
        exact ⟨rfl, same, settings⟩
      · rw [offering] at made
        obtain ⟨rfl, same⟩ := made
        rw [same] at results output
        rcases rest : after.performAll appId policy root plan with ⟨result, final⟩
        rcases others : next.offerEach policy root (Plan.offers plan) with ⟨result', last⟩
        rw [rest] at results output kept
        rw [others] at results output
        dsimp only [Except.map] at results output ⊢
        rw [rest, others]
        subst results
        cases result with
        | error failure => exact ⟨rfl, output, kept.trans settings⟩
        | ok outcomes => exact ⟨rfl, output, kept.trans settings⟩

private theorem openBytes_sameOutput (space : Workspace) (appId bytes : Bytes) :
    SameOutput space (space.openBytes appId bytes).2 := by
  rw [openBytes]
  by_cases sealed : Sealed.isSealed space.context.settings.sealing bytes = true
  · rw [if_pos sealed]
    exact ⟨rfl, rfl⟩
  · rw [if_neg sealed]
    exact .refl space

theorem readPackage_sameOutput (space : Workspace) (appId path : Bytes) :
    SameOutput space (space.readPackage appId path).2 := by
  rw [readPackage]
  cases space.readFile path with
  | error failure => exact .refl space
  | ok bytes =>
    have opened := openBytes_sameOutput space appId bytes
    dsimp only
    rcases opening : space.openBytes appId bytes with ⟨failure | ⟨wasSealed, clear⟩, after⟩
    · rw [opening] at opened
      exact opened
    · rw [opening] at opened
      dsimp only
      cases Container.parse after.context.settings.maxEntryCount.toNat clear with
      | error defect => exact opened
      | ok entries => exact opened

theorem warnMissing_sameOutput (space : Workspace) (package path : Bytes) (missing : List Bytes) :
    SameOutput space (space.warnMissing package path missing) := by
  rw [warnMissing]
  by_cases named : missing.filter (· ≠ []) = []
  · rw [if_pos named]
    exact .refl space
  · rw [if_neg named]
    exact ⟨rfl, rfl⟩

theorem checkDependencies_sameOutput (space : Workspace) (package appId : Bytes)
    (paths : List Bytes) :
    SameOutput space (space.checkDependencies package appId paths).2 := by
  induction paths generalizing space with
  | nil => exact .refl space
  | cons path paths ih =>
    rw [checkDependencies]
    exact (warnMissing_sameOutput ..).trans (ih _)

/-- The files that a package offers: those of its plan, up to the first that fails. -/
def offersOf (space : Workspace) (policy : OverwritePolicy) (root : Bytes) (package : Package) :
    List Offer :=
  match (space.readPackage (space.appIdOf package.path) package.path).1 with
  | .error _ => []
  | .ok contents =>
    space.output.attempted policy root
      (Plan.offers (Plan.ofEntries space.platform.json space.context.settings package.path
        contents.bytes contents.entries))

/-- A package that can be read fares as the files of its plan do. -/
theorem unpackPackage_read (space : Workspace) (policy : OverwritePolicy) (root : Bytes)
    (package : Package) {contents : Contents} {plan : List Action}
    (read : (space.readPackage (space.appIdOf package.path) package.path).1 = .ok contents)
    (planned : Plan.ofEntries space.platform.json space.context.settings package.path contents.bytes
      contents.entries = plan) :
    (space.unpackPackage policy root package).2.output =
        (space.output.offerEach policy root (Plan.offers plan)).2 ∧
      (space.unpackPackage policy root package).2.context.settings = space.context.settings ∧
      ∀ outcomes, (space.output.offerEach policy root (Plan.offers plan)).1 = .ok outcomes →
        ∃ report, (space.unpackPackage policy root package).1 = .ok report ∧ report.ok = true := by
  have reading := readPackage_sameOutput space (space.appIdOf package.path) package.path
  have platform := platform_readPackage space (space.appIdOf package.path) package.path
  rw [unpackPackage]
  dsimp only
  rcases opening : space.readPackage (space.appIdOf package.path) package.path with
    ⟨result, opened⟩
  rw [opening] at read reading platform
  obtain rfl : result = .ok contents := read
  obtain ⟨output, settings⟩ := reading
  dsimp only at output settings platform ⊢
  rw [platform, settings, planned]
  have started : (opened.openRegistry (space.appIdOf package.path)).output = space.output := output
  have same : (opened.openRegistry (space.appIdOf package.path)).context.settings =
      space.context.settings := settings
  generalize opened.openRegistry (space.appIdOf package.path) = start at started same
  obtain ⟨results, changed, kept⟩ :=
    start.performAll_output policy root (space.appIdOf package.path) plan
  rw [started] at results changed
  rw [same] at kept
  rcases performed : start.performAll (space.appIdOf package.path) policy root plan with
    ⟨failure | outcomes, after⟩
  · rw [performed] at results changed kept
    refine ⟨changed, kept, ?_⟩
    intro outcomes made
    rw [← results] at made
    cases made
  · rw [performed] at changed kept
    have checking := checkDependencies_sameOutput after package.path (space.appIdOf package.path)
      ((Plan.modules plan).map ScriptModule.path)
    exact ⟨checking.1.trans changed, checking.2.trans kept, fun _ _ => ⟨_, rfl, rfl⟩⟩

/-- Unpacking a package changes the output by its offers and in no other way. -/
theorem unpackPackage_output (space : Workspace) (policy : OverwritePolicy) (root : Bytes)
    (package : Package) :
    (space.unpackPackage policy root package).2.output =
        space.output.offerAll policy root (space.offersOf policy root package) ∧
      (space.unpackPackage policy root package).2.context.settings = space.context.settings := by
  rw [offersOf]
  cases read : (space.readPackage (space.appIdOf package.path) package.path).1 with
  | error failure =>
    have reading := readPackage_sameOutput space (space.appIdOf package.path) package.path
    rw [unpackPackage]
    dsimp only
    rcases opening : space.readPackage (space.appIdOf package.path) package.path with
      ⟨result, opened⟩
    rw [opening] at read reading
    obtain rfl : result = .error failure := read
    exact reading
  | ok contents =>
    obtain ⟨changed, kept, _⟩ := space.unpackPackage_read policy root package read rfl
    rw [Output.offerEach_output] at changed
    exact ⟨changed, kept⟩

/-- The report on a package that was unpacked. -/
def reportDone (package : Package) (appId : Bytes) (contents : Contents) (plan : List Action)
    (outcomes : List Outcome) (unresolved : Nat) : PackageReport where
  path := package.path
  kind := package.kind
  appId
  wasSealed := contents.wasSealed
  ok := true
  entries := contents.entries.length
  written := outcomes.count .written
  duplicates := outcomes.count .duplicate
  kept := outcomes.count .kept
  modules := (Plan.modules plan).length
  bytecodeModules := (Plan.modules plan).countP fun record => record.form = .bytecode
  truncatedModules := (Plan.modules plan).countP ScriptModule.truncated
  fallbacks := Plan.fallbacks plan
  unresolved

/-- All that can come of unpacking a package: it is not read, its plan fails, or its dependencies are
checked at last. -/
inductive Unpacks (space : Workspace) (policy : OverwritePolicy) (root : Bytes)
    (package : Package) : Except Failure PackageReport → Workspace → Prop
  | unread {failure : Failure} {opened : Workspace}
      (read : space.readPackage (space.appIdOf package.path) package.path =
        (.error failure, opened)) :
      Unpacks space policy root package (.error failure) opened
  | failed {contents : Contents} {failure : Failure} {opened after : Workspace}
      (read : space.readPackage (space.appIdOf package.path) package.path = (.ok contents, opened))
      (performed : (opened.openRegistry (space.appIdOf package.path)).performAll
          (space.appIdOf package.path) policy root
          (Plan.ofEntries opened.platform.json opened.context.settings package.path contents.bytes
            contents.entries) =
        (.error failure, after)) :
      Unpacks space policy root package (.error failure) after
  | done {contents : Contents} {outcomes : List Outcome} {plan : List Action} {unresolved : Nat}
      {opened after checked : Workspace}
      (read : space.readPackage (space.appIdOf package.path) package.path = (.ok contents, opened))
      (planned : Plan.ofEntries opened.platform.json opened.context.settings package.path
        contents.bytes contents.entries = plan)
      (performed : (opened.openRegistry (space.appIdOf package.path)).performAll
          (space.appIdOf package.path) policy root plan = (.ok outcomes, after))
      (checks : after.checkDependencies package.path (space.appIdOf package.path)
        ((Plan.modules plan).map ScriptModule.path) = (unresolved, checked)) :
      Unpacks space policy root package
        (.ok (reportDone package (space.appIdOf package.path) contents plan outcomes unresolved))
        checked

theorem unpacks (space : Workspace) (policy : OverwritePolicy) (root : Bytes)
    (package : Package) :
    Unpacks space policy root package (space.unpackPackage policy root package).1
      (space.unpackPackage policy root package).2 := by
  rw [unpackPackage]
  dsimp only
  rcases read : space.readPackage (space.appIdOf package.path) package.path with
    ⟨failure | contents, opened⟩
  · exact .unread read
  · dsimp only
    rcases performed : (opened.openRegistry (space.appIdOf package.path)).performAll
        (space.appIdOf package.path) policy root
        (Plan.ofEntries opened.platform.json opened.context.settings package.path contents.bytes
          contents.entries) with
      ⟨failure | outcomes, after⟩
    · exact .failed read performed
    · exact .done read rfl performed rfl

/-- What is reported of a package. -/
def reportOf (package : Package) : Except Failure PackageReport → PackageReport
  | .ok report => report
  | .error failure => .failed package failure

/-- Why the run ends behind a package, if it does. -/
def stopOf (proceeds : Bool) (package : Package) : Except Failure PackageReport → Option Bytes
  | .ok _ => none
  | .error failure => stopReason? proceeds package failure

/-- A package that the run does not end behind is reported, and the next one is unpacked. -/
theorem unpackQueue_cons (space : Workspace) (policy : OverwritePolicy) (root : Bytes)
    (proceeds : Bool) (package : Package) (packages : List Package) :
    space.unpackQueue policy root proceeds (package :: packages) =
      let (result, after) := space.unpackPackage policy root package
      let shown := after.showProgress (.ofReport (reportOf package result))
      match stopOf proceeds package result with
      | some reason =>
        ([reportOf package result], some reason,
          shown.log .error (utf8 "Run aborted: " ++ reason))
      | none =>
        let (reports, stop, final) := shown.unpackQueue policy root proceeds packages
        (reportOf package result :: reports, stop, final) := by
  rw [unpackQueue]
  rcases space.unpackPackage policy root package with ⟨failure | report, after⟩ <;> rfl

theorem platform_unpackQueue (space : Workspace) (policy : OverwritePolicy) (root : Bytes)
    (proceeds : Bool) (packages : List Package) :
    (space.unpackQueue policy root proceeds packages).2.2.platform = space.platform := by
  induction packages generalizing space with
  | nil => rfl
  | cons package packages ih =>
    have unpacked := space.platform_unpackPackage policy root package
    rw [unpackQueue_cons]
    dsimp only
    cases stopOf proceeds package (space.unpackPackage policy root package).1 with
    | some reason => exact unpacked
    | none => exact (ih _).trans unpacked

/-- The packages that are unpacked, each with the workspace that it finds. -/
def stages (space : Workspace) (policy : OverwritePolicy) (root : Bytes) (proceeds : Bool) :
    List Package → List (Workspace × Package)
  | [] => []
  | package :: packages =>
    let (result, after) := space.unpackPackage policy root package
    (space, package) ::
      match stopOf proceeds package result with
      | some _ => []
      | none =>
        (after.showProgress (.ofReport (reportOf package result))).stages policy root proceeds
          packages

theorem platform_of_stages {space before : Workspace} {policy : OverwritePolicy} {root : Bytes}
    {proceeds : Bool} {packages : List Package} {package : Package}
    (reached : (before, package) ∈ space.stages policy root proceeds packages) :
    before.platform = space.platform := by
  induction packages generalizing space with
  | nil => cases reached
  | cons first packages ih =>
    have unpacked := space.platform_unpackPackage policy root first
    rw [stages] at reached
    generalize space.unpackPackage policy root first = result at reached unpacked
    obtain ⟨answer, after⟩ := result
    dsimp only at reached unpacked
    rcases List.mem_cons.mp reached with same | reached
    · cases same
      rfl
    · cases stop : stopOf proceeds first answer with
      | some reason =>
        rw [stop] at reached
        cases reached
      | none =>
        rw [stop] at reached
        exact (ih reached).trans unpacked

/-- The files that the packages of a queue offer. -/
def queueOffers (space : Workspace) (policy : OverwritePolicy) (root : Bytes) (proceeds : Bool)
    (packages : List Package) : List Offer :=
  (space.stages policy root proceeds packages).flatMap fun (before, package) =>
    before.offersOf policy root package

/-- Unpacking a queue changes the output by the offers of its packages and in no other way. -/
theorem unpackQueue_output (space : Workspace) (policy : OverwritePolicy) (root : Bytes)
    (proceeds : Bool) (packages : List Package) :
    (space.unpackQueue policy root proceeds packages).2.2.output =
        space.output.offerAll policy root (space.queueOffers policy root proceeds packages) ∧
      (space.unpackQueue policy root proceeds packages).2.2.context.settings =
        space.context.settings := by
  induction packages generalizing space with
  | nil => exact ⟨rfl, rfl⟩
  | cons package packages ih =>
    obtain ⟨output, settings⟩ := space.unpackPackage_output policy root package
    rw [unpackQueue_cons, queueOffers, stages]
    rcases unpacked : space.unpackPackage policy root package with ⟨result, after⟩
    rw [unpacked] at output settings
    dsimp only at output settings ⊢
    rw [List.flatMap_cons, Output.offerAll_append, ← output]
    cases stopOf proceeds package result with
    | some reason => exact ⟨rfl, settings⟩
    | none =>
      obtain ⟨rest, kept⟩ := ih (after.showProgress (.ofReport (reportOf package result)))
      exact ⟨rest, kept.trans settings⟩

end Workspace

end Unbundle
