import Unbundle.Run.Plan
import Unbundle.Run.Report

namespace Unbundle

/-- A package in clear with its entries. -/
structure Contents where
  wasSealed : Bool
  bytes : Bytes
  entries : List Container.Entry
  deriving DecidableEq, Repr

/-- The dependencies that no module is registered for. -/
def Registry.missing (registry : Registry) (dependencies : PathSet) : List Bytes :=
  dependencies.toList.filter fun path => !registry.contains path

namespace Workspace

/-- The app that a package belongs to: the one the settings name, or the one in its path. -/
def appIdOf (space : Workspace) (path : Bytes) : Bytes :=
  if space.context.settings.appId = [] then Sealed.findAppId path
  else space.context.settings.appId

/-- The bytes of a package in clear. -/
def openBytes (space : Workspace) (appId bytes : Bytes) :
    Except Failure (Bool × Bytes) × Workspace :=
  if Sealed.isSealed space.context.settings.sealing bytes then
    let (result, space) := space.openPackage appId bytes
    (result.map (true, ·), space)
  else (.ok (false, bytes), space)

/-- Everything up to the entries of a package, which changes nothing but the keys. -/
def readPackage (space : Workspace) (appId path : Bytes) : Except Failure Contents × Workspace :=
  match space.readFile path with
  | .error failure => (.error failure, space)
  | .ok bytes =>
    match space.openBytes appId bytes with
    | (.error failure, space) => (.error failure, space)
    | (.ok (wasSealed, bytes), space) =>
      match Container.parse space.context.settings.maxEntryCount.toNat bytes with
      | .error defect => (.error (.format defect), space)
      | .ok entries => (.ok ⟨wasSealed, bytes, entries⟩, space)

/-- One action of a plan, and what became of the file it offers. -/
def perform (space : Workspace) (appId : Bytes) (policy : OverwritePolicy) (root : Bytes) :
    Action → Except Failure (Option Outcome) × Workspace
  | .complain text => (.ok none, space.log .error text)
  | .warn source message => (.ok none, space.warn source message)
  | .write _ path content =>
    let (result, space) := space.write policy root path content
    (result.map some, space)
  | .register record => (.ok none, space.register appId record)

/-- The actions of a plan up to the first that fails, and what became of the files. -/
def performAll (space : Workspace) (appId : Bytes) (policy : OverwritePolicy) (root : Bytes) :
    List Action → Except Failure (List Outcome) × Workspace
  | [] => (.ok [], space)
  | action :: plan =>
    match space.perform appId policy root action with
    | (.error failure, space) => (.error failure, space)
    | (.ok outcome, space) =>
      match space.performAll appId policy root plan with
      | (.error failure, space) => (.error failure, space)
      | (.ok outcomes, space) => (.ok (outcome.toList ++ outcomes), space)

/-- Warns of dependencies that are not met. -/
def warnMissing (space : Workspace) (package path : Bytes) (missing : List Bytes) : Workspace :=
  let named := missing.filter (· ≠ [])
  if named = [] then space
  else space.warn package
    (utf8 "module " ++ path ++ utf8 " has unresolved dependencies: " ++
      (utf8 ", ").intercalate named)

/-- Checks each module that a package brought, as it stands in the registry, and counts the
dependencies that are not met. -/
def checkDependencies (space : Workspace) (package appId : Bytes) :
    List Bytes → Nat × Workspace
  | [] => (0, space)
  | path :: paths =>
    let registry := space.registry appId
    let missing := match registry[path]? with
      | none => []
      | some record => Registry.missing registry record.dependencies
    let (count, space) :=
      (space.warnMissing package path missing).checkDependencies package appId paths
    (missing.length + count, space)

/-- Unpacks one package below the output root. -/
def unpackPackage (space : Workspace) (policy : OverwritePolicy) (root : Bytes)
    (package : Package) : Except Failure PackageReport × Workspace :=
  let appId := space.appIdOf package.path
  match space.readPackage appId package.path with
  | (.error failure, space) => (.error failure, space)
  | (.ok contents, space) =>
    let plan := Plan.ofEntries space.platform.json space.context.settings package.path
      contents.bytes contents.entries
    match (space.openRegistry appId).performAll appId policy root plan with
    | (.error failure, space) => (.error failure, space)
    | (.ok outcomes, space) =>
      let modules := Plan.modules plan
      let (unresolved, space) :=
        space.checkDependencies package.path appId (modules.map ScriptModule.path)
      (.ok {
        path := package.path
        kind := package.kind
        appId
        wasSealed := contents.wasSealed
        ok := true
        entries := contents.entries.length
        written := outcomes.count .written
        duplicates := outcomes.count .duplicate
        kept := outcomes.count .kept
        modules := modules.length
        bytecodeModules := modules.countP fun record => record.form = .bytecode
        truncatedModules := modules.countP ScriptModule.truncated
        fallbacks := Plan.fallbacks plan
        unresolved }, space)

end Workspace

end Unbundle
