import Unbundle.Disk.Lookup

namespace Unbundle.Disk

open Ascii

/-- Puts an entry at a place, which must lie in a directory and be no directory. -/
def place? (disk : Disk) (place : Place) (entry : Entry) : Except Problem Disk :=
  if free : disk.find? place = some .directory then .error .isDirectory
  else if inside : disk.find? place.dropLast = some .directory then
    have proper : place ≠ [] := by
      rintro rfl; exact free inside
    .ok (disk.add place.dropLast (place.getLast proper) entry inside
      (by rwa [List.dropLast_concat_getLast]))
  else .error .missing

theorem find?_place? {disk after : Disk} {place : Place} {entry : Entry}
    (placed : disk.place? place entry = .ok after) (other : Place) :
    after.find? other = if other = place then some entry else disk.find? other := by
  unfold place? at placed
  split at placed
  · simp at placed
  · split at placed
    · cases placed
      rw [find?_add, List.dropLast_concat_getLast]
    · simp at placed

/-- The disk with a file written, over an older one if there is one. -/
def write (disk : Disk) (path content : Bytes) : Except Problem Disk :=
  if wantsDirectory (Bytes.untilNul path) then .error .isDirectory
  else
    match disk.locate path with
    | .error problem => .error problem
    | .ok place => disk.place? place (.file content)

/-- The disk with one more directory. A directory that stands there already is good as well. -/
def makeDirectory (disk : Disk) (path : Bytes) : Except Problem Disk :=
  match disk.locate path with
  | .error problem => .error problem
  | .ok place =>
    match disk.find? place with
    | none => disk.place? place .directory
    | some .directory => .ok disk
    | some (.file _) => .error .occupied

/-- A path and the directories that it lies in, as far up as the text goes. -/
def ancestors (path : Bytes) : List Bytes :=
  if _shorter : (Path.parent path).length < path.length then path :: ancestors (Path.parent path)
  else [path]
termination_by path.length

/-- More directories than these are not made for one path. -/
def maxDepth : Nat := 1000

/-- The directories to make, outermost first, for the innermost of a list of paths to exist. The
next one out is looked at until there is one that exists, and that has to be a directory. -/
def missingDirectories (disk : Disk) (made : List Bytes) : List Bytes → Except Problem (List Bytes)
  | [] => .ok made
  | path :: outer =>
    let name := Path.lastSegment path
    let made := if name = Path.here ∨ name = Path.up then made else path :: made
    if maxDepth < made.length then .error .nameTooLong
    else
      match outer with
      | [] => .ok made
      | next :: _ =>
        if next = [] then .ok made
        else
          match disk.status next with
          | .ok .directory => .ok made
          | .ok (.file _) => .error .notDirectory
          | .error problem =>
            if problem.isAbsence then disk.missingDirectories made outer else .error problem

/-- Makes directories one after the other, up to the first that cannot be made. -/
def makeEach (disk : Disk) : List Bytes → Option Problem × Disk
  | [] => (none, disk)
  | path :: paths =>
    match disk.makeDirectory path with
    | .error problem => (some problem, disk)
    | .ok disk => disk.makeEach paths

/-- A path without the slash at its end. -/
def withoutSlash (path : Bytes) : Bytes :=
  if Path.lastSegment path = [] ∧ names path ≠ [] then Path.parent path else path

/-- The disk with a directory and all those it lies in. Those made before a problem stay. -/
def makeDirectories (disk : Disk) (path : Bytes) : Option Problem × Disk :=
  if path = [] then (some .invalid, disk)
  else
    match disk.status path with
    | .ok .directory => (none, disk)
    | .ok (.file _) => (some .notDirectory, disk)
    | .error problem =>
      if problem.isAbsence then
        match disk.missingDirectories [] (ancestors (withoutSlash path)) with
        | .error problem => (some problem, disk)
        | .ok paths => disk.makeEach paths
      else (some problem, disk)

/-- Removes what a path names by itself. The system does not remove a directory under one of the
two idle names, nor the root. -/
def removeOnly (disk : Disk) (path : Bytes) : Option Problem × Disk :=
  match disk.locate path with
  | .error .missing => (none, disk)
  | .error problem => (some problem, disk)
  | .ok place =>
    match disk.find? place with
    | none => (none, disk)
    | some _ =>
      match (names (Bytes.untilNul path)).getLast? with
      | none => (some .busy, disk)
      | some name =>
        if name = Path.here then (some .invalid, disk)
        else if name = Path.up then (some .notEmpty, disk)
        else if proper : place ≠ [] then (none, disk.remove place proper)
        else (some .busy, disk)

/-- The disk without the file at a place, if one is there. -/
def discard (disk : Disk) (place : Place) : Disk :=
  match disk.find? place with
  | some (.file _) => if proper : place ≠ [] then disk.remove place proper else disk
  | some .directory | none => disk

/-- Removes what a path names with all that lies below it, the content first. -/
def removeAll (disk : Disk) (path : Bytes) : Option Problem × Disk :=
  match disk.status path with
  | .error .missing => (none, disk)
  | .error problem => (some problem, disk)
  | .ok (.file _) => disk.removeOnly path
  | .ok .directory =>
    match disk.locate path with
    | .error problem => (some problem, disk)
    | .ok place => (disk.clear place).removeOnly path

end Unbundle.Disk
