import Unbundle.Disk.Change
import Unbundle.Failure
import Unbundle.Output.Fingerprint
import Unbundle.Output.Policy

/-!
Writing the files of a run below an output root. The first content offered for a path stands for
the whole run: the same content again is a duplicate, another one a collision.
-/

namespace Unbundle

/-- The disk and what the run has put there. -/
structure Output where
  disk : Disk
  index : OutputIndex := ∅
  device : Device := {}

namespace Output

/-- The output with one more path recorded. -/
def record (output : Output) (path : Bytes) (print : Fingerprint) : Output :=
  { output with index := output.index.insert path print }

/-- Whether the policy leaves alone what stands at a path. -/
def isKept (output : Output) (policy : OverwritePolicy) (target : Bytes) :
    Except Disk.Problem Bool :=
  if policy = .keep then output.disk.presence target else .ok false

/-- The directory of a file, made where it is missing. -/
def makeParent (disk : Disk) (target : Bytes) : Option Disk.Problem × Disk :=
  if Path.parent target = [] then (none, disk) else disk.makeDirectories (Path.parent target)

/-- Writes a file with its directory. Directories stay even if the file cannot be written. -/
def put (disk : Disk) (target content : Bytes) : Except Failure Unit × Disk :=
  match makeParent disk target with
  | (some problem, disk) =>
    (.error (.disk .makeDirectories problem (Path.parent target)), disk)
  | (none, disk) =>
    match disk.write target content with
    | .error _ => (.error (.cannotWrite { path := target }), disk)
    | .ok disk => (.ok (), disk)

/-- Writes as much of a file as the device takes, which is not enough if anything is missing. -/
def store (output : Output) (target content : Bytes) : Except Failure Unit × Disk :=
  match put output.disk target (output.device.taken target content) with
  | (.error failure, disk) => (.error failure, disk)
  | (.ok (), disk) =>
    if output.device.cut? target content = none then (.ok (), disk)
    else (.error (.cannotWrite { path := target, fault := .cut }), disk)

/-- Offers a content for a path below the root. -/
def write (output : Output) (policy : OverwritePolicy) (root path content : Bytes) :
    Except Failure Outcome × Output :=
  let print := Fingerprint.ofContent content
  match output.index[path]? with
  | some first =>
    if first.agrees print then (.ok .duplicate, output) else (.error (.collision path), output)
  | none =>
    let target := Path.below root path
    match output.isKept policy target with
    | .error problem => (.error (.disk .status problem target), output)
    | .ok true => (.ok .kept, output.record path print)
    | .ok false =>
      match output.store target content with
      | (.error failure, disk) => (.error failure, { output with disk })
      | (.ok (), disk) => (.ok .written, { output with disk }.record path print)

end Output

end Unbundle
