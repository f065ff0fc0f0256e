import Unbundle.Bundle.Scan
import Unbundle.Journal
import Unbundle.Json.Plain
import Unbundle.Ledger.Plain.File
import Unbundle.Output.Writer
import Unbundle.Settings

namespace Unbundle

/-- The modules of one app by the path they were registered under. -/
abbrev Registry := Std.ExtTreeMap Bytes ScriptModule

structure Warning where
  origin : Bytes
  message : Bytes
  deriving DecidableEq, Repr

/-- Everything that lives for one run, over the settings it was started with. -/
structure Context where
  settings : Settings := {}
  keyring : Sealed.Keyring := {}
  registries : Std.ExtTreeMap Bytes Registry := ∅
  outputs : OutputIndex := ∅
  warnings : List Warning := []

/-- What comes of reading the file under a path, if there is one. -/
def Device.read (device : Device) (path : Bytes) (file : Option Bytes) : Except Failure Bytes :=
  match file with
  | none => .error (.notRegular path)
  | some bytes =>
    match device.fault? path with
    | some fault => .error (.notRegular { path, fault? := some fault })
    | none => .ok bytes

/-- What a run relies on without changing it. -/
structure Platform where
  json : Json.Library := .plain
  device : Device := {}
  ledgers : Ledger.Library := .plain

structure Workspace where
  disk : Disk
  context : Context := {}
  journal : Journal := {}
  platform : Platform := {}

namespace Workspace

def log (space : Workspace) (level : Level) (text : Bytes) : Workspace :=
  { space with journal := space.journal.log level text }

/-- A warning is remembered, and shown with its origin. -/
def warn (space : Workspace) (origin message : Bytes) : Workspace :=
  let space := space.log .warning (origin ++ utf8 ": " ++ message)
  { space with
    context := { space.context with
      warnings := space.context.warnings ++ [⟨origin, message⟩] } }

/-- The modules of an app, none if it has not been seen. -/
def registry (space : Workspace) (appId : Bytes) : Registry :=
  space.context.registries.getD appId ∅

def setRegistry (space : Workspace) (appId : Bytes) (registry : Registry) : Workspace :=
  { space with
    context := { space.context with
      registries := space.context.registries.insert appId registry } }

/-- The workspace with the registry of an app, empty if it is new. -/
def openRegistry (space : Workspace) (appId : Bytes) : Workspace :=
  space.setRegistry appId (space.registry appId)

/-- Registers a module under its path, in the place of an earlier one. -/
def register (space : Workspace) (appId : Bytes) (record : ScriptModule) : Workspace :=
  space.setRegistry appId ((space.registry appId).insert record.path record)

def withKeyring (space : Workspace) (keyring : Sealed.Keyring) : Workspace :=
  { space with context := { space.context with keyring } }

def output (space : Workspace) : Output where
  disk := space.disk
  index := space.context.outputs
  device := space.platform.device

def withOutput (space : Workspace) (output : Output) : Workspace :=
  { space with disk := output.disk, context := { space.context with outputs := output.index } }

/-- Offers a file to the output. -/
def write (space : Workspace) (policy : OverwritePolicy) (root path content : Bytes) :
    Except Failure Outcome × Workspace :=
  let (result, output) := space.output.write policy root path content
  (result, space.withOutput output)

/-- The bytes of a file. -/
def readFile (space : Workspace) (path : Bytes) : Except Failure Bytes :=
  space.platform.device.read path (space.disk.fileAt? path)

/-- Opens a sealed package with the keys found so far. -/
def openPackage (space : Workspace) (appId bytes : Bytes) : Except Failure Bytes × Workspace :=
  let (result, keyring) :=
    Sealed.openPackage space.context.keyring space.context.settings.sealing appId bytes
  (result.mapError .ofOpenDefect, space.withKeyring keyring)

/-- Makes the output root, without its old content if the policy says so. -/
def makeRoot (space : Workspace) (root : Bytes) : Bool × Workspace :=
  match space.disk.makeDirectories root with
  | (some problem, disk) =>
    (false, { space with disk }.log .error
      (utf8 "Cannot create " ++ root ++ utf8 ": " ++ problem.message))
  | (none, disk) => (true, { space with disk })

/-- Prepares the output root once, before anything is written. -/
def prepare (space : Workspace) (policy : OverwritePolicy) (root : Bytes) : Bool × Workspace :=
  match policy, space.disk.presence root with
  | .clear, .ok true =>
    match space.disk.removeAll root with
    | (some problem, disk) =>
      (false, { space with disk }.log .error
        (utf8 "Cannot clear " ++ root ++ utf8 ": " ++ problem.message))
    | (none, disk) =>
      ({ space with disk }.log .info (utf8 "Removed old output " ++ root)).makeRoot root
  | _, _ => space.makeRoot root

end Workspace

end Unbundle
