import Unbundle.Disk.Lookup
import Unbundle.Failure
import Unbundle.Settings

namespace Unbundle

inductive PackageKind where
  | main | subpackage
  deriving DecidableEq, Repr

def PackageKind.name : PackageKind → String
  | main => "main"
  | subpackage => "subpackage"

structure Package where
  path : Bytes
  kind : PackageKind
  deriving DecidableEq, Repr

structure Queue where
  main : List Bytes
  subpackages : List Bytes
  deriving DecidableEq, Repr

def Settings.isMainPackage (settings : Settings) (fileName : Bytes) : Bool :=
  fileName ∈ settings.mainPackageNames

namespace Queue

/-- Paths in the order of their file names. -/
def sortByName (paths : List Bytes) : List Bytes :=
  paths.mergeSort fun a b => decide (Path.lastSegment a ≤ Path.lastSegment b)

def ofPaths (settings : Settings) (paths : List Bytes) : Queue :=
  let isMain := fun path => settings.isMainPackage (Path.lastSegment path)
  { main := sortByName (paths.filter isMain)
    subpackages := sortByName (paths.filter fun path => !isMain path) }

def packages (queue : Queue) : List Package :=
  queue.main.map (⟨·, .main⟩) ++ queue.subpackages.map (⟨·, .subpackage⟩)

/-- The files with the container extension directly inside a directory. -/
def ofDirectory (settings : Settings) (disk : Disk) (directory : Bytes) :
    Except Failure Queue :=
  match disk.status directory, disk.locate directory with
  | .error problem, _ | _, .error problem =>
    .error (.disk .listDirectory problem directory)
  | .ok (.file _), _ => .error (.disk .listDirectory .notDirectory directory)
  | .ok .directory, .ok place =>
    let names := (disk.list place).filterMap fun (name, entry) =>
      if entry ≠ .directory ∧ Path.extension name = settings.containerExtension then some name
      else none
    .ok (ofPaths settings (names.map (Path.below directory)))

end Queue

end Unbundle
