import Unbundle.Proofs.Sealed.Keyring
import Unbundle.Run.Execution

namespace Unbundle

namespace Contents

/-- The bytes of a file in clear, opened with no keys at hand. -/
def clear (settings : Settings) (appId bytes : Bytes) : Except Failure (Bool × Bytes) :=
  if Sealed.isSealed settings.sealing bytes then
    ((Sealed.openPackage {} settings.sealing appId bytes).1.mapError .ofOpenDefect).map (true, ·)
  else .ok (false, bytes)

/-- What a package is read to from the file under its path, if there is one. -/
def ofFile (device : Device) (settings : Settings) (appId path : Bytes) (file : Option Bytes) :
    Except Failure Contents :=
  match device.read path file with
  | .error failure => .error failure
  | .ok bytes =>
    match clear settings appId bytes with
    | .error failure => .error failure
    | .ok (wasSealed, text) =>
      match Container.parse settings.maxEntryCount.toNat text with
      | .error defect => .error (.format defect)
      | .ok entries => .ok ⟨wasSealed, text, entries⟩

variable {settings : Settings} {appId path : Bytes} {failure : Failure}

private theorem isCollision_of_clear {bytes : Bytes}
    (failed : clear settings appId bytes = .error failure) :
    failure.isCollision = false := by
  rw [clear] at failed
  by_cases closed : Sealed.isSealed settings.sealing bytes = true
  · rw [if_pos closed] at failed
    generalize (Sealed.openPackage {} settings.sealing appId bytes).1 = opened at failed
    cases opened with
    | error defect =>
      cases failed
      cases defect <;> rfl
    | ok text => cases failed
  · rw [if_neg closed] at failed
    cases failed

private theorem isCollision_of_read {device : Device} {file : Option Bytes}
    (failed : device.read path file = .error failure) : failure.isCollision = false := by
  cases file with
  | none =>
    cases failed
    rfl
  | some bytes =>
    rw [Device.read] at failed
    cases fault : device.fault? path with
    | none =>
      rw [fault] at failed
      cases failed
    | some reason =>
      rw [fault] at failed
      cases failed
      rfl

/-- No package fails to be read for a collision. -/
theorem isCollision_of_error {device : Device} {file : Option Bytes}
    (failed : ofFile device settings appId path file = .error failure) :
    failure.isCollision = false := by
  rw [ofFile] at failed
  cases read : device.read path file with
  | error reason =>
    rw [read] at failed
    cases failed
    exact isCollision_of_read read
  | ok bytes =>
    rw [read] at failed
    dsimp only at failed
    cases opened : clear settings appId bytes with
    | error defect =>
      rw [opened] at failed
      cases failed
      exact isCollision_of_clear opened
    | ok answer =>
      rw [opened] at failed
      dsimp only at failed
      cases parsed : Container.parse settings.maxEntryCount.toNat answer.2 with
      | error defect =>
        rw [parsed] at failed
        cases failed
        rfl
      | ok entries =>
        rw [parsed] at failed
        cases failed

end Contents

namespace Workspace

/-- A change that only the keys and the journal can tell. -/
structure Quiet (space after : Workspace) : Prop where
  output : after.output = space.output
  settings : after.context.settings = space.context.settings
  platform : after.platform = space.platform
  registries : after.context.registries = space.context.registries
  warnings : after.context.warnings = space.context.warnings
  sound : space.context.keyring.Sound space.context.settings.sealing →
    after.context.keyring.Sound after.context.settings.sealing

variable {space : Workspace}

namespace Quiet

variable {other after : Workspace}

theorem refl (space : Workspace) : Quiet space space :=
  ⟨rfl, rfl, rfl, rfl, rfl, id⟩

theorem trans (first : Quiet space other) (second : Quiet other after) : Quiet space after :=
  ⟨second.output.trans first.output, second.settings.trans first.settings,
    second.platform.trans first.platform, second.registries.trans first.registries,
    second.warnings.trans first.warnings, fun sound => second.sound (first.sound sound)⟩

theorem log (space : Workspace) (level : Level) (text : Bytes) :
    Quiet space (space.log level text) :=
  ⟨rfl, rfl, rfl, rfl, rfl, id⟩

theorem disk (quiet : Quiet space after) : after.disk = space.disk :=
  congrArg Output.disk quiet.output

end Quiet

private theorem openBytes_sound (sound : space.context.keyring.Sound space.context.settings.sealing)
    (appId bytes : Bytes) :
    (space.openBytes appId bytes).1 = Contents.clear space.context.settings appId bytes ∧
      Quiet space (space.openBytes appId bytes).2 := by
  rw [openBytes, Contents.clear]
  by_cases closed : Sealed.isSealed space.context.settings.sealing bytes = true
  · obtain ⟨same, still⟩ := Sealed.openPackage_sound sound appId bytes
    rw [if_pos closed, if_pos closed, openPackage]
    dsimp only
    rw [same]
    exact ⟨rfl, rfl, rfl, rfl, rfl, rfl, fun _ => still⟩
  · rw [if_neg closed, if_neg closed]
    exact ⟨rfl, .refl space⟩

/-- Packages are read the same way whatever was read before them. -/
theorem readPackage_sound (sound : space.context.keyring.Sound space.context.settings.sealing)
    (appId path : Bytes) :
    (space.readPackage appId path).1 =
        Contents.ofFile space.platform.device space.context.settings appId path
          (space.disk.fileAt? path) ∧
      Quiet space (space.readPackage appId path).2 := by
  rw [readPackage, Contents.ofFile, readFile]
  cases space.platform.device.read path (space.disk.fileAt? path) with
  | error failure => exact ⟨rfl, .refl space⟩
  | ok bytes =>
    obtain ⟨same, quiet⟩ := openBytes_sound sound appId bytes
    dsimp only
    rw [← same]
    generalize space.openBytes appId bytes = result at quiet ⊢
    obtain ⟨failure | ⟨wasSealed, text⟩, opened⟩ := result
    · exact ⟨rfl, quiet⟩
    · have settings := quiet.settings
      dsimp only at settings ⊢
      rw [settings]
      cases Container.parse space.context.settings.maxEntryCount.toNat text with
      | error defect => exact ⟨rfl, quiet⟩
      | ok entries => exact ⟨rfl, quiet⟩

/-- Without a ledger, concluding a run only sums it up. -/
theorem conclude_quiet (plain : space.context.settings.ledgerPath = []) (root : Bytes)
    (reports : List PackageReport) (stop : Option Bytes) :
    (space.conclude root reports stop).1 =
        { packages := reports
          ok := stop.isNone && reports.all PackageReport.ok
          abort := stop } ∧
      Quiet space (space.conclude root reports stop).2 := by
  rw [conclude, recordRun]
  dsimp only
  rw [if_pos plain]
  dsimp only
  rw [Bool.and_true]
  by_cases complete : (stop.isNone && reports.all PackageReport.ok) = true
  · rw [if_pos complete]
    exact ⟨rfl, .log ..⟩
  · rw [if_neg complete]
    exact ⟨rfl, .log ..⟩

end Workspace

end Unbundle
