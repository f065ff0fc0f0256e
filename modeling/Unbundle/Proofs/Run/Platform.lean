import Unbundle.Run.Execution

namespace Unbundle

/-- A file is read if it is there and nothing goes wrong with it. -/
theorem Device.read_eq_ok {device : Device} {path bytes : Bytes} {file : Option Bytes} :
    device.read path file = .ok bytes ↔ file = some bytes ∧ device.fault? path = none := by
  cases file with
  | none => simp [Device.read]
  | some content =>
    rw [Device.read]
    cases device.fault? path <;> simp

namespace Workspace

variable (space : Workspace) (policy : OverwritePolicy) (root appId : Bytes)

private theorem platform_openBytes (bytes : Bytes) :
    (space.openBytes appId bytes).2.platform = space.platform := by
  rw [openBytes]
  split <;> rfl

theorem platform_readPackage (path : Bytes) :
    (space.readPackage appId path).2.platform = space.platform := by
  rw [readPackage]
  cases space.readFile path with
  | error failure => rfl
  | ok bytes =>
    have opened := space.platform_openBytes appId bytes
    dsimp only
    rcases opening : space.openBytes appId bytes with ⟨failure | ⟨wasSealed, clear⟩, after⟩
    · rwa [opening] at opened
    · rw [opening] at opened
      dsimp only
      cases Container.parse after.context.settings.maxEntryCount.toNat clear <;> exact opened

private theorem platform_perform (action : Action) :
    (space.perform appId policy root action).2.platform = space.platform := by
  cases action <;> rfl

private theorem platform_performAll (plan : List Action) :
    (space.performAll appId policy root plan).2.platform = space.platform := by
  induction plan generalizing space with
  | nil => rfl
  | cons action plan ih =>
    have performed := space.platform_perform policy root appId action
    rw [performAll]
    rcases step : space.perform appId policy root action with ⟨failure | outcome, after⟩
    · rwa [step] at performed
    · rw [step] at performed
      have others := ih after
      dsimp only
      rcases rest : after.performAll appId policy root plan with ⟨failure | outcomes, final⟩ <;>
        rw [rest] at others <;> exact others.trans performed

private theorem platform_warnMissing (package path : Bytes) (missing : List Bytes) :
    (space.warnMissing package path missing).platform = space.platform := by
  rw [warnMissing]
  split <;> rfl

private theorem platform_checkDependencies (package : Bytes) (paths : List Bytes) :
    (space.checkDependencies package appId paths).2.platform = space.platform := by
  induction paths generalizing space with
  | nil => rfl
  | cons path paths ih =>
    rw [checkDependencies]
    exact (ih _).trans (platform_warnMissing ..)

theorem platform_unpackPackage (package : Package) :
    (space.unpackPackage policy root package).2.platform = space.platform := by
  have reading := space.platform_readPackage (space.appIdOf package.path) package.path
  rw [unpackPackage]
  dsimp only
  rcases opening : space.readPackage (space.appIdOf package.path) package.path with
    ⟨failure | contents, opened⟩
  · rwa [opening] at reading
  · rw [opening] at reading
    have performed := (opened.openRegistry (space.appIdOf package.path)).platform_performAll policy
      root (space.appIdOf package.path) (Plan.ofEntries opened.platform.json
        opened.context.settings package.path contents.bytes contents.entries)
    dsimp only at performed ⊢
    rcases step : (opened.openRegistry (space.appIdOf package.path)).performAll
        (space.appIdOf package.path) policy root (Plan.ofEntries opened.platform.json
          opened.context.settings package.path contents.bytes contents.entries) with
      ⟨failure | outcomes, after⟩
    · rw [step] at performed
      exact performed.trans reading
    · rw [step] at performed
      exact (platform_checkDependencies ..).trans (performed.trans reading)

private theorem platform_makeRoot : (space.makeRoot root).2.platform = space.platform := by
  rw [makeRoot]
  split <;> rfl

theorem platform_prepare : (space.prepare policy root).2.platform = space.platform := by
  rw [prepare.eq_def]
  split
  · split
    · rfl
    · exact platform_makeRoot ..
  · exact platform_makeRoot ..

end Workspace

end Unbundle
