import Unbundle.Proofs.Output.Alike
import Unbundle.Proofs.Run.Confinement
import Unbundle.Proofs.Run.Preparation
import Unbundle.Proofs.Run.Quiet

/-!
Two runs side by side, over disks that differ in files of the input. Main statement: where each
package of one queue reads as on the other disk, and the packages that the other queue lacks cannot
be read at all, the runs end alike.
-/

namespace Unbundle

open Ascii Disk Unbundle.Path

variable {differ : Difference} {policy : OverwritePolicy} {root : Bytes} {flag : Bool → Bool}

theorem Disk.Alike.prepared {disk other : Disk} (alike : Alike differ disk other)
    (keeps : disk.Keeps differ root) (policy : OverwritePolicy) :
    (other.prepared policy root).1 = (disk.prepared policy root).1 ∧
      Alike differ (disk.prepared policy root).2 (other.prepared policy root).2 := by
  have made := alike.makeDirectories keeps
  rw [Disk.prepared.eq_def, Disk.prepared.eq_def disk, alike.presence_eq keeps]
  cases policy with
  | keep => exact made
  | merge => exact made
  | clear =>
    cases disk.presence root with
    | error problem => exact made
    | ok present =>
      cases present with
      | false => exact made
      | true =>
        obtain ⟨same, removed⟩ := alike.removeAll keeps
        have current := (disk.removeAll_intact root).1
        dsimp only
        generalize disk.removeAll root = result, other.removeAll root = result'
          at same removed current ⊢
        obtain ⟨problem, after⟩ := result
        obtain ⟨problem', after'⟩ := result'
        obtain rfl : problem' = problem := same
        cases problem' with
        | some problem => exact ⟨rfl, removed⟩
        | none => exact removed.makeDirectories (keeps.congr current)

/-- The contents with their flag for sealed packages seen through a function. -/
def Contents.flagged (flag : Bool → Bool) (contents : Contents) : Contents :=
  { contents with wasSealed := flag contents.wasSealed }

/-- The report with the flag for sealed packages seen through a function, if it has one: that of a
failed package does not tell. -/
def PackageReport.flagged (flag : Bool → Bool) (report : PackageReport) : PackageReport :=
  if report.ok then { report with wasSealed := flag report.wasSealed } else report

theorem PackageReport.flagged_id (reports : List PackageReport) :
    reports.map (PackageReport.flagged id) = reports := by
  have same (report : PackageReport) : report.flagged id = report := by
    rw [flagged]
    by_cases ok : report.ok = true
    · rw [if_pos ok]
      rfl
    · rw [if_neg ok]
  rw [List.map_congr_left fun report _ => same report, List.map_id']

theorem PackageReport.all_flagged (flag : Bool → Bool) (reports : List PackageReport) :
    (reports.map (PackageReport.flagged flag)).all PackageReport.ok =
      reports.all PackageReport.ok := by
  have same (report : PackageReport) : (report.flagged flag).ok = report.ok := by
    rw [flagged]
    by_cases ok : report.ok = true
    · rw [if_pos ok]
    · rw [if_neg ok]
  rw [List.all_map]
  exact congrArg (reports.all ·) (funext same)

/-- The package that a report is about. -/
def PackageReport.package (report : PackageReport) : Package := ⟨report.path, report.kind⟩

namespace Workspace

/-- Two workspaces that differ in their keys, their journals, and files of their disks. -/
structure Alike (differ : Difference) (space other : Workspace) : Prop where
  output : Output.Alike differ space.output other.output
  settings : other.context.settings = space.context.settings
  platform : other.platform = space.platform
  registries : other.context.registries = space.context.registries
  warnings : other.context.warnings = space.context.warnings
  sound : space.context.keyring.Sound space.context.settings.sealing
  sound' : other.context.keyring.Sound other.context.settings.sealing

/-- Whether no canonical path below a root passes a place where only one disk has a file. -/
def Shelters (space : Workspace) (differ : Difference) (root : Bytes) : Prop :=
  ∀ path, Canonical path → space.disk.Keeps differ (below root path)

variable {space other after after' : Workspace} {package : Package} {packages : List Package}

theorem Shelters.congr (shelters : space.Shelters differ root)
    (current : after.disk.current = space.disk.current) : after.Shelters differ root :=
  fun path canonical => (shelters path canonical).congr current

private theorem perform_current (space : Workspace) (policy : OverwritePolicy) (root appId : Bytes)
    (action : Action) :
    (space.perform appId policy root action).2.disk.current = space.disk.current := by
  cases action with
  | complain text => rfl
  | warn source message => rfl
  | write origin path content =>
    exact (space.output.offer_grown policy root ⟨path, content⟩).current
  | register record => rfl

namespace Alike

theorem disk (alike : Alike differ space other) : Disk.Alike differ space.disk other.disk :=
  alike.output.disk

/-- Workspaces of one fresh context differ as their disks do. -/
theorem of_disks (fresh : space.context = { settings := space.context.settings })
    (context : other.context = space.context) (platform : other.platform = space.platform)
    (disks : Disk.Alike differ space.disk other.disk) : Alike differ space other := by
  have sound : space.context.keyring.Sound space.context.settings.sealing := by
    rw [fresh]
    exact Sealed.Keyring.sound_empty _
  refine ⟨⟨disks, ?_, ?_⟩, ?_, platform, ?_, ?_, sound, ?_⟩
  · rw [Workspace.output, Workspace.output, context]
  · rw [Workspace.output, Workspace.output, platform]
  · rw [context]
  · rw [context]
  · rw [context]
  · rw [context]
    exact sound

theorem quiet (alike : Alike differ space other) (first : Quiet space after)
    (second : Quiet other after') : Alike differ after after' := by
  refine ⟨?_, ?_, ?_, ?_, ?_, first.sound alike.sound, second.sound alike.sound'⟩
  · rw [first.output, second.output]
    exact alike.output
  · rw [first.settings, second.settings, alike.settings]
  · rw [first.platform, second.platform, alike.platform]
  · rw [first.registries, second.registries, alike.registries]
  · rw [first.warnings, second.warnings, alike.warnings]

theorem log (alike : Alike differ space other) (level level' : Level) (text text' : Bytes) :
    Alike differ (space.log level text) (other.log level' text') :=
  alike.quiet (.log ..) (.log ..)

theorem warn (alike : Alike differ space other) (origin message : Bytes) :
    Alike differ (space.warn origin message) (other.warn origin message) :=
  ⟨alike.output, alike.settings, alike.platform, alike.registries,
    congrArg (· ++ [Warning.mk origin message]) alike.warnings, alike.sound, alike.sound'⟩

theorem registry_eq (alike : Alike differ space other) (appId : Bytes) :
    other.registry appId = space.registry appId := by
  rw [registry, registry, alike.registries]

theorem setRegistry (alike : Alike differ space other) (appId : Bytes) (registry : Registry) :
    Alike differ (space.setRegistry appId registry) (other.setRegistry appId registry) :=
  ⟨alike.output, alike.settings, alike.platform,
    congrArg (·.insert appId registry) alike.registries, alike.warnings, alike.sound, alike.sound'⟩

theorem perform (alike : Alike differ space other) (appId : Bytes) (policy : OverwritePolicy)
    {action : Action}
    (keeps : ∀ offer, action.offer? = some offer →
      space.disk.Keeps differ (below root offer.path)) :
    (other.perform appId policy root action).1 = (space.perform appId policy root action).1 ∧
      Alike differ (space.perform appId policy root action).2
        (other.perform appId policy root action).2 := by
  cases action with
  | complain text => exact ⟨rfl, alike.log ..⟩
  | warn source message => exact ⟨rfl, alike.warn source message⟩
  | write origin path content =>
    obtain ⟨same, output⟩ := alike.output.write (keeps ⟨path, content⟩ rfl) policy content
    exact ⟨congrArg (Except.map some) same, ⟨output.disk, output.index, alike.output.device⟩,
      alike.settings, alike.platform, alike.registries, alike.warnings, alike.sound, alike.sound'⟩
  | register record =>
    rw [Workspace.perform, Workspace.perform, register, register, alike.registry_eq]
    exact ⟨rfl, alike.setRegistry appId _⟩

theorem performAll (alike : Alike differ space other) (shelters : space.Shelters differ root)
    (appId : Bytes) (policy : OverwritePolicy) {plan : List Action}
    (canonical : ∀ offer ∈ Plan.offers plan, Canonical offer.path) :
    (other.performAll appId policy root plan).1 = (space.performAll appId policy root plan).1 ∧
      Alike differ (space.performAll appId policy root plan).2
        (other.performAll appId policy root plan).2 := by
  induction plan generalizing space other with
  | nil => exact ⟨rfl, alike⟩
  | cons action plan ih =>
    have keeps (offer : Offer) (offered : action.offer? = some offer) :
        space.disk.Keeps differ (below root offer.path) :=
      shelters offer.path
        (canonical offer (List.mem_filterMap.mpr ⟨action, List.mem_cons_self, offered⟩))
    have others (offer : Offer) (member : offer ∈ Plan.offers plan) : Canonical offer.path := by
      obtain ⟨later, listed, offered⟩ := List.mem_filterMap.mp member
      exact canonical offer (List.mem_filterMap.mpr ⟨later, List.mem_cons_of_mem _ listed, offered⟩)
    have performed := alike.perform appId policy keeps
    have current := space.perform_current policy root appId action
    rw [Workspace.performAll, Workspace.performAll]
    generalize space.perform appId policy root action = result,
      other.perform appId policy root action = result' at performed current ⊢
    obtain ⟨done, after⟩ := result
    obtain ⟨done', after'⟩ := result'
    obtain ⟨rfl, alike⟩ : done' = done ∧ Alike differ after after' := performed
    cases done' with
    | error failure => exact ⟨rfl, alike⟩
    | ok outcome =>
      obtain ⟨same, final⟩ := ih alike (shelters.congr current) others
      dsimp only
      generalize after.performAll appId policy root plan = result,
        after'.performAll appId policy root plan = result' at same final ⊢
      obtain ⟨rest, after⟩ := result
      obtain ⟨rest', after'⟩ := result'
      obtain rfl : rest' = rest := same
      cases rest' with
      | error failure => exact ⟨rfl, final⟩
      | ok outcomes => exact ⟨rfl, final⟩

theorem warnMissing (alike : Alike differ space other) (package path : Bytes)
    (missing : List Bytes) :
    Alike differ (space.warnMissing package path missing)
      (other.warnMissing package path missing) := by
  rw [Workspace.warnMissing, Workspace.warnMissing]
  by_cases named : missing.filter (· ≠ []) = []
  · rw [if_pos named, if_pos named]
    exact alike
  · rw [if_neg named, if_neg named]
    exact alike.warn _ _

theorem checkDependencies (alike : Alike differ space other) (package appId : Bytes)
    (paths : List Bytes) :
    (other.checkDependencies package appId paths).1 =
        (space.checkDependencies package appId paths).1 ∧
      Alike differ (space.checkDependencies package appId paths).2
        (other.checkDependencies package appId paths).2 := by
  induction paths generalizing space other with
  | nil => exact ⟨rfl, alike⟩
  | cons path paths ih =>
    rw [Workspace.checkDependencies, Workspace.checkDependencies, alike.registry_eq]
    dsimp only
    obtain ⟨same, final⟩ := ih (alike.warnMissing package path _)
    rw [same]
    exact ⟨rfl, final⟩

private theorem appIdOf_eq (alike : Alike differ space other) (path : Bytes) :
    other.appIdOf path = space.appIdOf path := by
  rw [appIdOf, appIdOf, alike.settings]

theorem readPackage (alike : Alike differ space other) {appId path : Bytes}
    (reads : (Contents.ofFile space.platform.device space.context.settings appId path
        (other.disk.fileAt? path)).map (Contents.flagged flag) =
      (Contents.ofFile space.platform.device space.context.settings appId path
        (space.disk.fileAt? path)).map (Contents.flagged flag)) :
    (other.readPackage appId path).1.map (Contents.flagged flag) =
        (space.readPackage appId path).1.map (Contents.flagged flag) ∧
      Alike differ (space.readPackage appId path).2 (other.readPackage appId path).2 := by
  obtain ⟨read, quiet⟩ := readPackage_sound alike.sound appId path
  obtain ⟨read', quiet'⟩ := readPackage_sound alike.sound' appId path
  rw [alike.settings, alike.platform] at read'
  rw [read, read']
  exact ⟨reads, alike.quiet quiet quiet'⟩

/-- A package that reads the same on both disks is unpacked the same way. -/
theorem unpackPackage (alike : Alike differ space other) (shelters : space.Shelters differ root)
    (policy : OverwritePolicy) (package : Package)
    (reads : (Contents.ofFile space.platform.device space.context.settings
        (space.appIdOf package.path) package.path (other.disk.fileAt? package.path)).map
          (Contents.flagged flag) =
      (Contents.ofFile space.platform.device space.context.settings
        (space.appIdOf package.path) package.path (space.disk.fileAt? package.path)).map
          (Contents.flagged flag)) :
    (other.unpackPackage policy root package).1.map (PackageReport.flagged flag) =
        (space.unpackPackage policy root package).1.map (PackageReport.flagged flag) ∧
      Alike differ (space.unpackPackage policy root package).2
        (other.unpackPackage policy root package).2 := by
  obtain ⟨read, opened⟩ := alike.readPackage reads
  have canonical {contents : Contents}
      (found : (space.readPackage (space.appIdOf package.path) package.path).1 = .ok contents) :
      ∀ entry ∈ contents.entries, Canonical entry.path := canonical_of_readPackage found
  have current := congrArg Disk.current
    (readPackage_sound alike.sound (space.appIdOf package.path) package.path).2.disk
  rw [Workspace.unpackPackage, Workspace.unpackPackage, alike.appIdOf_eq]
  dsimp only
  generalize space.appIdOf package.path = appId at read canonical opened current ⊢
  generalize space.readPackage appId package.path = result,
    other.readPackage appId package.path = result' at read canonical opened current ⊢
  obtain ⟨failure | contents, space⟩ := result <;>
    obtain ⟨failure' | contents', other⟩ := result'
  · cases read
    exact ⟨rfl, opened⟩
  · cases read
  · cases read
  obtain ⟨told, bytes, entries⟩ := Contents.mk.inj (Except.ok.inj read)
  dsimp only at opened current ⊢
  rw [bytes, entries, opened.settings, opened.platform]
  have started : Alike differ (space.openRegistry appId) (other.openRegistry appId) := by
    rw [openRegistry, openRegistry, opened.registry_eq]
    exact opened.setRegistry appId _
  have offered (offer : Offer)
      (member : offer ∈ Plan.offers (Plan.ofEntries space.platform.json space.context.settings
        package.path contents.bytes contents.entries)) : Canonical offer.path :=
    Plan.canonical_ofEntries (canonical rfl) member
  obtain ⟨same, after⟩ := started.performAll (shelters.congr current) appId policy offered
  generalize (space.openRegistry appId).performAll appId policy root _ = result,
    (other.openRegistry appId).performAll appId policy root _ = result' at same after ⊢
  obtain ⟨done, space⟩ := result
  obtain ⟨done', other⟩ := result'
  obtain rfl : done' = done := same
  cases done' with
  | error failure => exact ⟨rfl, after⟩
  | ok outcomes =>
    obtain ⟨same, final⟩ := after.checkDependencies package.path appId _
    dsimp only
    rw [same]
    refine ⟨?_, final⟩
    simp only [Except.map, PackageReport.flagged, if_true, told]

end Alike

/-- Whether a package reads the same on all disks that differ as told, except for its flag. -/
def ReadsAlike (space : Workspace) (differ : Difference) (flag : Bool → Bool) (package : Package) :
    Prop :=
  ∀ disk other, Disk.Alike differ disk other → disk.current = space.disk.current →
    (Contents.ofFile space.platform.device space.context.settings
        (space.appIdOf package.path) package.path (other.fileAt? package.path)).map
          (Contents.flagged flag) =
      (Contents.ofFile space.platform.device space.context.settings
        (space.appIdOf package.path) package.path (disk.fileAt? package.path)).map
          (Contents.flagged flag)

/-- Whether a package cannot be read. -/
def Unreadable (space : Workspace) (package : Package) : Prop :=
  ∃ failure, (space.readPackage (space.appIdOf package.path) package.path).1 = .error failure

instance (space : Workspace) (package : Package) : Decidable (space.Unreadable package) :=
  match read : (space.readPackage (space.appIdOf package.path) package.path).1 with
  | .error failure => isTrue ⟨failure, read⟩
  | .ok _ => isFalse (by rintro ⟨_, failed⟩; cases read.symm.trans failed)

private theorem reportOf_flagged (package : Package) (result : Except Failure PackageReport) :
    (reportOf package result).flagged flag =
      reportOf package (result.map (PackageReport.flagged flag)) := by
  cases result <;> rfl

private theorem stopOf_flagged (proceeds : Bool) (package : Package)
    (result : Except Failure PackageReport) :
    stopOf proceeds package (result.map (PackageReport.flagged flag)) =
      stopOf proceeds package result := by
  cases result <;> rfl

theorem package_reportOf (space : Workspace) (policy : OverwritePolicy) (root : Bytes)
    (package : Package) :
    (reportOf package (space.unpackPackage policy root package).1).package = package := by
  rw [unpackPackage]
  dsimp only
  rcases space.readPackage (space.appIdOf package.path) package.path with
    ⟨failure | contents, after⟩
  · rfl
  · dsimp only
    rcases (after.openRegistry (space.appIdOf package.path)).performAll (space.appIdOf package.path)
      policy root _ with ⟨failure | outcomes, final⟩ <;> rfl

theorem unpackPackage_unreadable
    (sound : space.context.keyring.Sound space.context.settings.sealing)
    (unreadable : space.Unreadable package) (policy : OverwritePolicy) (root : Bytes) :
    Quiet space (space.unpackPackage policy root package).2 ∧
      stopOf true package (space.unpackPackage policy root package).1 = none := by
  obtain ⟨failure, failed⟩ := unreadable
  obtain ⟨read, quiet⟩ := readPackage_sound sound (space.appIdOf package.path) package.path
  rw [failed] at read
  have passed := Contents.isCollision_of_error read.symm
  rw [unpackPackage]
  dsimp only
  generalize space.readPackage (space.appIdOf package.path) package.path = result at failed quiet ⊢
  obtain ⟨answer, after⟩ := result
  obtain rfl : answer = .error failure := failed
  refine ⟨quiet, ?_⟩
  rw [stopOf, stopReason?, passed]
  rfl

/-- Two queues that end alike, where the second one lacks some packages. -/
structure QueuesAlike (differ : Difference) (flag : Bool → Bool) (keep : Package → Bool)
    (result result' : List PackageReport × Option Bytes × Workspace) : Prop where
  reports : result'.1.map (PackageReport.flagged flag) =
    (result.1.filter (keep ·.package)).map (PackageReport.flagged flag)
  stop : result'.2.1 = result.2.1
  space : Alike differ result.2.2 result'.2.2

namespace QueuesAlike

variable {keep : Package → Bool} {result result' : List PackageReport × Option Bytes × Workspace}
  {report report' : PackageReport}

theorem ended (alike : Alike differ after after') (stop : Option Bytes) :
    QueuesAlike differ flag keep ([], stop, after) ([], stop, after') :=
  ⟨rfl, rfl, alike⟩

theorem shown (rest : QueuesAlike differ flag keep result result')
    (kept : keep report.package = true) (told : report'.flagged flag = report.flagged flag) :
    QueuesAlike differ flag keep (report :: result.1, result.2)
      (report' :: result'.1, result'.2) := by
  refine ⟨?_, rest.stop, rest.space⟩
  simp only [List.filter_cons, kept, if_true, List.map_cons, told, rest.reports]

theorem hidden (rest : QueuesAlike differ flag keep result result')
    (lacking : keep report.package = false) :
    QueuesAlike differ flag keep (report :: result.1, result.2) result' := by
  refine ⟨?_, rest.stop, rest.space⟩
  simp only [List.filter_cons, lacking, Bool.false_eq_true, if_false, rest.reports]

end QueuesAlike

/-- Queues go alike if each package of the second reads as on the first disk, and those that the
second lacks cannot be read and stop nothing. -/
theorem unpackQueue_alike {start : Workspace} {keep : Package → Bool} {proceeds : Bool}
    (alike : Alike differ space other) (shelters : space.Shelters differ root)
    (current : space.disk.current = start.disk.current)
    (settings : space.context.settings = start.context.settings)
    (platform : space.platform = start.platform)
    (reads : ∀ package ∈ packages, keep package = true → start.ReadsAlike differ flag package)
    (fails : ∀ stage ∈ space.stages policy root proceeds packages, keep stage.2 = false →
      stage.1.Unreadable stage.2)
    (goesOn : ∀ package ∈ packages, keep package = false → proceeds = true) :
    QueuesAlike differ flag keep (space.unpackQueue policy root proceeds packages)
      (other.unpackQueue policy root proceeds (packages.filter keep)) := by
  induction packages generalizing space other with
  | nil => exact .ended alike none
  | cons package packages ih =>
    obtain ⟨first, reads⟩ := List.forall_mem_cons.mp reads
    obtain ⟨stops, goesOn⟩ := List.forall_mem_cons.mp goesOn
    have reported := congrArg keep (package_reportOf space policy root package)
    obtain ⟨output, same⟩ := space.unpackPackage_output policy root package
    have still : (space.unpackPackage policy root package).2.disk.current = start.disk.current := by
      rw [← current]
      exact (congrArg (·.disk.current) output).trans
        (space.output.offerAll_grown policy root _).current
    have same := same.trans settings
    have unmoved := (space.platform_unpackPackage policy root package).trans platform
    rw [unpackQueue_cons]
    rw [stages] at fails
    by_cases kept : keep package = true
    · have reads' := first kept space.disk other.disk alike.disk current
      rw [appIdOf, ← settings, ← platform, ← appIdOf] at reads'
      have unpacked := alike.unpackPackage shelters policy package reads'
      rw [List.filter_cons_of_pos kept, unpackQueue_cons]
      generalize space.unpackPackage policy root package = result,
        other.unpackPackage policy root package = result'
          at unpacked reported fails still same unmoved ⊢
      obtain ⟨answer, after⟩ := result
      obtain ⟨answer', after'⟩ := result'
      obtain ⟨answers, alike⟩ := unpacked
      have told : (reportOf package answer').flagged flag =
          (reportOf package answer).flagged flag := by
        rw [reportOf_flagged, reportOf_flagged, answers]
      have stops : stopOf proceeds package answer' = stopOf proceeds package answer := by
        rw [← stopOf_flagged proceeds package answer', answers, stopOf_flagged]
      have noted : Alike differ (after.showProgress (.ofReport (reportOf package answer)))
          (after'.showProgress (.ofReport (reportOf package answer'))) := alike.log ..
      dsimp only at fails ⊢
      rw [stops]
      cases stop : stopOf proceeds package answer with
      | some reason =>
        have aborted := noted.log .error .error (utf8 "Run aborted: " ++ reason)
          (utf8 "Run aborted: " ++ reason)
        exact (QueuesAlike.ended aborted (some reason)).shown (reported.trans kept) told
      | none =>
        rw [stop] at fails
        have rest := ih noted (shelters.congr (still.trans current.symm)) still same unmoved reads
          (fun stage member => fails stage (List.mem_cons_of_mem _ member)) goesOn
        exact rest.shown (reported.trans kept) told
    -- The second run stays where it is while the first one fails on the package.
    · have lacking : keep package = false := Bool.eq_false_iff.mpr kept
      obtain rfl := stops lacking
      obtain ⟨quiet, onward⟩ := unpackPackage_unreadable alike.sound
        (fails (space, package) List.mem_cons_self lacking) policy root
      rw [List.filter_cons_of_neg kept]
      generalize space.unpackPackage policy root package = result
        at quiet onward reported fails still same unmoved ⊢
      obtain ⟨answer, after⟩ := result
      dsimp only at onward fails ⊢
      rw [onward] at fails ⊢
      have rest := ih (alike.quiet (quiet.trans (.log ..)) (.refl other))
        (shelters.congr (still.trans current.symm)) still same unmoved reads
        (fun stage member => fails stage (List.mem_cons_of_mem _ member)) goesOn
      exact rest.hidden (reported.trans lacking)

theorem Alike.prepare (alike : Alike differ space other) (keeps : space.disk.Keeps differ root)
    (policy : OverwritePolicy) :
    (other.prepare policy root).1 = (space.prepare policy root).1 ∧
      Alike differ (space.prepare policy root).2 (other.prepare policy root).2 := by
  obtain ⟨made, disks⟩ := alike.disk.prepared keeps policy
  obtain ⟨result, disk, context⟩ := space.prepare_eq policy root
  obtain ⟨result', disk', context'⟩ := other.prepare_eq policy root
  refine ⟨by rw [result, result', made], ⟨?_, ?_, ?_⟩, ?_, ?_, ?_, ?_, ?_, ?_⟩
  · rw [Workspace.output, Workspace.output, disk, disk']
    exact disks
  · rw [Workspace.output, Workspace.output, context, context']
    exact alike.output.index
  · rw [Workspace.output, Workspace.output, platform_prepare, platform_prepare, alike.platform]
  · rw [context, context', alike.settings]
  · rw [platform_prepare, platform_prepare, alike.platform]
  · rw [context, context', alike.registries]
  · rw [context, context', alike.warnings]
  · rw [context]
    exact alike.sound
  · rw [context']
    exact alike.sound'

/-- Without a ledger, a run is well if it was not aborted and all its packages are. -/
theorem ok_unpack (plain : space.context.settings.ledgerPath = []) (policy : OverwritePolicy)
    (root input : Bytes) :
    (space.unpack policy root input).1.ok =
      ((space.unpack policy root input).1.abort.isNone &&
        (space.unpack policy root input).1.packages.all PackageReport.ok) := by
  have ran := space.ran policy root input
  generalize space.offers policy root input = offers, space.runStages policy root input = stages,
    space.unpack policy root input = result at ran ⊢
  cases ran with
  | idle | unprepared => rfl
  | @done found begun after reports stop _ _ _ _ context _ unpacked =>
    have kept := (begun.unpackQueue_output policy root
      (space.context.settings.failurePolicy.proceeds found.inDirectory) found.queue.packages).2
    rw [unpacked] at kept
    have quiet : after.context.settings.ledgerPath = [] := by
      rw [kept, context]
      exact plain
    rw [(conclude_quiet quiet root reports stop).1]

/-- Two runs that end alike, where the second one lacks some packages. -/
structure RunsAlike (differ : Difference) (flag : Bool → Bool) (keep : Package → Bool)
    (result result' : RunReport × Workspace) : Prop where
  packages : result'.1.packages.map (PackageReport.flagged flag) =
    (result.1.packages.filter (keep ·.package)).map (PackageReport.flagged flag)
  abort : result'.1.abort = result.1.abort
  space : Alike differ result.2 result'.2

/-- Runs go alike if their queues do. -/
theorem unpack_alike {input : Bytes} {found found' : Found} {keep : Package → Bool}
    (alike : Alike differ space other) (plain : space.context.settings.ledgerPath = [])
    (finds : space.findPackages input = .ok found)
    (finds' : other.findPackages input = .ok found')
    (mode : found'.inDirectory = found.inDirectory)
    (queued : found'.queue.packages = found.queue.packages.filter keep)
    (filled : found.queue.packages ≠ [] → found'.queue.packages ≠ [])
    (keeps : space.disk.Keeps differ root) (shelters : space.Shelters differ root)
    (reads : ∀ package ∈ found.queue.packages, keep package = true →
      space.ReadsAlike differ flag package)
    (fails : ∀ stage ∈ space.runStages policy root input, keep stage.2 = false →
      stage.1.Unreadable stage.2)
    (goesOn : ∀ package ∈ found.queue.packages, keep package = false →
      space.context.settings.failurePolicy.proceeds found.inDirectory = true) :
    RunsAlike differ flag keep (space.unpack policy root input)
      (other.unpack policy root input) := by
  rw [runStages, finds] at fails
  dsimp only at fails
  rw [unpack, unpack, finds, finds']
  dsimp only
  rw [alike.settings, mode]
  by_cases empty : found.queue.packages = []
  · have none : found'.queue.packages = [] := by rw [queued, empty, List.filter_nil]
    rw [if_pos empty, if_pos none]
    exact ⟨rfl, rfl, (alike.log ..).log ..⟩
  rw [if_neg empty] at fails
  rw [if_neg empty, if_neg (filled empty), queued]
  have prepared :=
    (alike.log .info .info (modeText found) (modeText found')).prepare keeps policy
  obtain ⟨same, settings⟩ := (space.log .info (modeText found)).prepare_sameOutside policy root
  have platform := (space.log .info (modeText found)).platform_prepare policy root
  generalize (space.log .info (modeText found)).prepare policy root = result,
    (other.log .info (modeText found')).prepare policy root = result'
      at prepared fails same settings platform ⊢
  obtain ⟨ready, begun⟩ := result
  obtain ⟨ready', begun'⟩ := result'
  obtain ⟨rfl, begins⟩ : ready' = ready ∧ Alike differ begun begun' := prepared
  cases ready' with
  | false => exact ⟨rfl, rfl, begins⟩
  | true =>
    have queue :=
      unpackQueue_alike begins (shelters.congr same.1) same.1 settings platform reads fails goesOn
    have kept := (begun.unpackQueue_output policy root
      (space.context.settings.failurePolicy.proceeds found.inDirectory) found.queue.packages).2
    dsimp only
    generalize begun.unpackQueue policy root _ found.queue.packages = result,
      begun'.unpackQueue policy root _ (found.queue.packages.filter keep) = result' at queue kept ⊢
    obtain ⟨reports, stop, after⟩ := result
    obtain ⟨reports', stop', after'⟩ := result'
    obtain ⟨reported, rfl, final⟩ := queue
    have plain : after.context.settings.ledgerPath = [] := by rw [kept, settings]; exact plain
    have plain' : after'.context.settings.ledgerPath = [] := by rw [final.settings]; exact plain
    obtain ⟨summed, quiet⟩ := conclude_quiet plain root reports stop'
    obtain ⟨summed', quiet'⟩ := conclude_quiet plain' root reports' stop'
    dsimp only
    refine ⟨?_, ?_, final.quiet quiet quiet'⟩
    · rw [summed, summed']
      exact reported
    · rw [summed, summed']

/-- Two runs that leave the same below the output root and know the same of it. -/
structure SameResults (home : Place) (after after' : Workspace) : Prop where
  tree : ∀ place, home <+: place → after'.disk.find? place = after.disk.find? place
  outputs : after'.context.outputs = after.context.outputs
  registries : after'.context.registries = after.context.registries
  warnings : after'.context.warnings = after.context.warnings

theorem Alike.sameResults {home : Place} (alike : Alike differ after after')
    (apart : ∀ place content content', home <+: place → ¬differ place content content') :
    SameResults home after after' := by
  refine ⟨?_, alike.output.index, alike.registries, alike.warnings⟩
  intro place inside
  have file := (alike.disk.file place).resolve_right (apart place _ _ inside)
  exact find?_congr (alike.disk.directory place) file

end Workspace

end Unbundle
