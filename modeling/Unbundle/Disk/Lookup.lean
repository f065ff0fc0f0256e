import Unbundle.Disk.Basic
import Unbundle.Path.FileName

/-!
Where a path leads on a disk. A path ends at its first NUL; every component on the way has to be a
directory, and the last one may be missing.
-/

namespace Unbundle.Disk

open Ascii

/-- Why the system refuses a path. -/
inductive Problem where
  | missing | notDirectory | isDirectory | occupied | nameTooLong | invalid | notEmpty | busy
  deriving DecidableEq, Repr

def Problem.message : Problem → Bytes
  | missing => utf8 "No such file or directory"
  | notDirectory => utf8 "Not a directory"
  | isDirectory => utf8 "Is a directory"
  | occupied => utf8 "File exists"
  | nameTooLong => utf8 "File name too long"
  | invalid => utf8 "Invalid argument"
  | notEmpty => utf8 "Directory not empty"
  | busy => utf8 "Device or resource busy"

def maxNameLength : Nat := 255

def maxPathLength : Nat := 4095

/-- The place reached by following names from a place, each step being taken in a directory. -/
def follow (disk : Disk) (place : Place) : List Bytes → Except Problem Place
  | [] => .ok place
  | name :: names =>
    match disk.find? place with
    | none => .error .missing
    | some (.file _) => .error .notDirectory
    | some .directory =>
      if name = Path.here then disk.follow place names
      else if name = Path.up then disk.follow place.dropLast names
      else if maxNameLength < name.length then .error .nameTooLong
      else disk.follow (place ++ [name]) names

/-- One step of a way. -/
def step (place : Place) (name : Bytes) : Place :=
  if name = Path.here then place
  else if name = Path.up then place.dropLast
  else place ++ [name]

/-- The place that names lead to if every step is possible. -/
def reach (place : Place) (names : List Bytes) : Place := names.foldl step place

/-- The components of a path, without the empty ones between slashes. -/
def names (path : Bytes) : List Bytes := (Path.segments path).filter (· ≠ [])

def isAbsolute (path : Bytes) : Bool := path.head? = some slash

/-- A path that ends with a slash can only mean a directory. -/
def wantsDirectory (path : Bytes) : Bool := path.getLast? = some slash

/-- Where a path leads, whether or not anything is there. -/
def locate (disk : Disk) (path : Bytes) : Except Problem Place :=
  let seen := Bytes.untilNul path
  if seen = [] then .error .missing
  else if maxPathLength < seen.length then .error .nameTooLong
  else disk.follow (if isAbsolute seen then [] else disk.current) (names seen)

/-- What a path names. -/
def status (disk : Disk) (path : Bytes) : Except Problem Entry :=
  match disk.locate path with
  | .error problem => .error problem
  | .ok place =>
    match disk.find? place with
    | none => .error .missing
    | some .directory => .ok .directory
    | some (.file content) =>
      if wantsDirectory (Bytes.untilNul path) then .error .notDirectory else .ok (.file content)

/-- A problem that only says that nothing is there. -/
def Problem.isAbsence (problem : Problem) : Bool := problem = .missing || problem = .notDirectory

/-- Whether a path names anything, if that can be told. -/
def presence (disk : Disk) (path : Bytes) : Except Problem Bool :=
  match disk.status path with
  | .ok _ => .ok true
  | .error problem => if problem.isAbsence then .ok false else .error problem

/-- The content of the file that a path names. -/
def fileAt? (disk : Disk) (path : Bytes) : Option Bytes :=
  match disk.status path with
  | .ok (.file content) => some content
  | _ => none

/-- A path with the working directory before it, if it does not start at the root. -/
def absolute (disk : Disk) (path : Bytes) : Bytes :=
  Path.below (slash :: Path.join disk.current) path

end Unbundle.Disk
