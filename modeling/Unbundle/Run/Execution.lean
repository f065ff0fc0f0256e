import Unbundle.Ledger.Store
import Unbundle.Run.Package

namespace Unbundle

/-- Whether a run goes on after a failed package. -/
def FailurePolicy.proceeds (policy : FailurePolicy) (inDirectory : Bool) : Bool :=
  match policy with
  | proceed => true
  | abort => false
  | auto => inDirectory

/-- Why a failed package ends the run, if it does. A collision always does. -/
def stopReason? (proceeds : Bool) (package : Package) (failure : Failure) : Option Bytes :=
  if failure.isCollision then some (utf8 "output collision: " ++ failure.message)
  else if proceeds then none
  else some (package.path ++ utf8 ": " ++ failure.message)

/-- The packages of a run, which are those of a directory or a single one. -/
structure Found where
  inDirectory : Bool
  queue : Queue
  deriving DecidableEq, Repr

namespace Workspace

def findPackages (space : Workspace) (input : Bytes) : Except Bytes Found :=
  match space.disk.status input with
  | .ok .directory =>
    match Queue.ofDirectory space.context.settings space.disk input with
    | .error failure => .error failure.message
    | .ok queue => .ok ⟨true, queue⟩
  | .ok (.file _) => .ok ⟨false, .ofPaths space.context.settings [input]⟩
  | .error _ => .error (utf8 "input does not exist: " ++ input)

def showProgress (space : Workspace) (progress : Progress) : Workspace :=
  space.log (if progress.ok then .done else .error) progress.text

/-- Unpacks the packages of a queue up to the one that stops the run. -/
def unpackQueue (space : Workspace) (policy : OverwritePolicy) (root : Bytes) (proceeds : Bool) :
    List Package → List PackageReport × Option Bytes × Workspace
  | [] => ([], none, space)
  | package :: packages =>
    let (result, space) := space.unpackPackage policy root package
    let report := match result with
      | .ok report => report
      | .error failure => .failed package failure
    let stop := match result with
      | .ok _ => none
      | .error failure => stopReason? proceeds package failure
    let space := space.showProgress (.ofReport report)
    match stop with
    | some reason => ([report], some reason, space.log .error (utf8 "Run aborted: " ++ reason))
    | none =>
      let (reports, stop, space) := space.unpackQueue policy root proceeds packages
      (report :: reports, stop, space)

/-- Records a run in its ledger, if it has one, and tells whether nothing went wrong. -/
def recordRun (space : Workspace) (reports : List PackageReport) : Bool × Workspace :=
  let path := space.context.settings.ledgerPath
  if path = [] then (true, space)
  else
    match space.storeRun path reports with
    | (true, space) => (true, space)
    | (false, space) =>
      (false, space.log .error (utf8 "Failed to save run metadata to " ++ path))

/-- Sums up a run and records it. -/
def conclude (space : Workspace) (root : Bytes) (reports : List PackageReport)
    (abort : Option Bytes) : RunReport × Workspace :=
  let (recorded, space) := space.recordRun reports
  let report : RunReport :=
    { packages := reports
      ok := abort.isNone && reports.all PackageReport.ok && recorded
      abort }
  let total := Bytes.decimal reports.length
  if report.ok then
    (report, space.log .done (utf8 "Unpacked " ++ total ++ utf8 " package(s) into " ++ root))
  else
    (report, space.log .error
      (Bytes.decimal report.failures ++ utf8 " of " ++ total ++ utf8 " package(s) failed"))

/-- Ends a run before anything was done. -/
def refuse (space : Workspace) (reason : Bytes) : RunReport × Workspace :=
  ({ abort := some reason }, space.log .error reason)

def modeText (found : Found) : Bytes :=
  utf8 "Mode: " ++ utf8 (if found.inDirectory then "package directory" else "single package") ++
    utf8 ", " ++ Bytes.decimal found.queue.main.length ++ utf8 " main, " ++
    Bytes.decimal found.queue.subpackages.length ++ utf8 " subpackage(s)"

/-- Unpacks a package or a directory of them below the output root. -/
def unpack (space : Workspace) (policy : OverwritePolicy) (root input : Bytes) :
    RunReport × Workspace :=
  let settings := space.context.settings
  match space.findPackages input with
  | .error reason => space.refuse reason
  | .ok found =>
    let space := space.log .info (modeText found)
    if found.queue.packages = [] then
      space.refuse (utf8 "no " ++ settings.containerExtension ++ utf8 " packages in " ++ input)
    else
      match space.prepare policy root with
      | (false, space) =>
        ({ abort := some (utf8 "cannot prepare output directory " ++ root) }, space)
      | (true, space) =>
        let proceeds := settings.failurePolicy.proceeds found.inDirectory
        let (reports, stop, space) :=
          space.unpackQueue policy root proceeds found.queue.packages
        space.conclude root reports stop

end Workspace

end Unbundle
