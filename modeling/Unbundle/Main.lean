import Unbundle.CommandLine

/-!
The program. It copies the part of the file system that its arguments speak of, runs on the copy,
and carries out in the file system what the run has changed.
-/

namespace Unbundle.Program

/-- The text of a path, which the system takes in Unicode only. -/
def pathText (path : Bytes) : IO String :=
  match String.fromUTF8? ⟨path.toArray⟩ with
  | some text => pure text
  | none => throw (IO.userError "a path is not valid UTF-8")

def placeText (place : Place) : IO String := pathText (Ascii.slash :: Path.join place)

def putFile (disk : Disk) (path content : Bytes) : Disk :=
  (disk.write path content).toOption.getD disk

/-- The disk with what stands at a path, a directory without its content. What is neither a
directory nor a regular file counts as an empty file. -/
def copyEntry (disk : Disk) (path : Bytes) : IO Disk := do
  let text ← pathText path
  let .ok real ← (IO.FS.realPath text).toBaseIO | return disk
  match (← real.metadata).type with
  | .dir => return (disk.makeDirectory path).toOption.getD disk
  | .file => return putFile disk path (← IO.FS.readBinFile text).data.toList
  | _ => return putFile disk path []

/-- The disk with what stands at a path and below it. A link is not followed into a directory. -/
partial def copyTree (disk : Disk) (path : Bytes) : IO Disk := do
  let disk ← copyEntry disk path
  let .ok .directory := disk.status path | return disk
  let children ← (← IO.FS.realPath (← pathText path)).readDir
  children.foldlM (fun disk child => do
    let inner := Path.below path (utf8 child.fileName)
    let .ok real ← (IO.FS.realPath child.path).toBaseIO | return putFile disk inner []
    if real != child.path && (← real.isDir) then return putFile disk inner []
    copyTree disk inner) disk

/-- The disk with what stands at a path, and with the directories it lies in. -/
def copyBranch (disk : Disk) (path : Bytes) : IO Disk :=
  (Disk.ancestors path).reverse.foldlM copyEntry disk

/-- The disk with what stands at a path and below it, and with the directories it lies in. -/
def copyPath (disk : Disk) (path : Bytes) : IO Disk := do
  copyTree (← copyBranch disk path) path

/-- The disk with all files that a ledger of an address may read or change. -/
def copyLedger (disk : Disk) (address : Bytes) : IO Disk := do
  let .ok named := Ledger.Plain.Address.ofText address | return disk
  let disk ← (named.path :: (named.word? "modeof").toList).foldlM copyBranch disk
  (Ledger.Plain.placesOf disk.current address).foldlM (fun disk place =>
    copyBranch disk (Ascii.slash :: Path.join place)) disk

/-- The disk that a run with the given arguments works on. -/
def diskFor (arguments : List Bytes) : IO Disk := do
  let current := utf8 (← IO.currentDir).toString
  let disk := { (Disk.empty.makeDirectories current).2 with current := Disk.names current }
  let .ok options := CommandLine.readArguments {} arguments | return disk
  let given := [options.input, options.settingsPath].filter (· ≠ [])
  let disk ← given.foldlM copyPath disk
  let disk ← if options.ledgerPath = [] then pure disk else copyLedger disk options.ledgerPath
  let .ok root := options.root disk | return disk
  copyPath disk root

/-- Takes away what stood at a place before, unless an entry of the same kind stands there after. -/
def removeOld (after : Disk) (place : Place) (entry : Disk.Entry) : IO Unit := do
  match entry, after.find? place with
  | .directory, some .directory | .file _, some (.file _) => return
  | .directory, _ => IO.FS.removeDir (← placeText place)
  | .file _, _ => IO.FS.removeFile (← placeText place)

/-- Makes or changes what stands at a place after. -/
def makeNew (before : Disk) (place : Place) (entry : Disk.Entry) : IO Unit := do
  match entry with
  | .directory =>
    if before.find? place ≠ some .directory then IO.FS.createDir (← placeText place)
  | .file content =>
    if before.find? place ≠ some (.file content) then
      IO.FS.writeBinFile (← placeText place) ⟨content.toArray⟩

/-- Carries out the change from one disk to another: removals from the innermost entry outwards,
the rest from the outermost inwards. -/
def carryOut (before after : Disk) : IO Unit := do
  before.toList.reverse.forM fun (place, entry) => removeOld after place entry
  after.toList.forM fun (place, entry) => makeNew before place entry

def printLine (line : Line) : IO Unit := do
  let stream ← if line.level.isProgress then IO.getStdout else IO.getStderr
  stream.write ⟨line.render.toArray⟩

/-- One run of the program, and its exit code. -/
def run (arguments : List String) : IO UInt32 := do
  let arguments := arguments.map utf8
  let before ← diskFor arguments
  let (result, space) := CommandLine.run (utf8 (← IO.appPath).toString) arguments before
  carryOut before space.disk
  space.journal.lines.forM printLine
  match result with
  | .ok code => return code
  | .error failure =>
    printLine ⟨.error, failure.message⟩
    return 1

end Unbundle.Program

def main (arguments : List String) : IO UInt32 := Unbundle.Program.run arguments
