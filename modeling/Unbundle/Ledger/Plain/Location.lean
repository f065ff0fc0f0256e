import Unbundle.Disk.Lookup

/-!
Where ledgers lie. Their paths are worked out over the text, so that a name and the step back from
it lead nowhere, whatever stands there; and the place must leave room for the files beside it.
-/

namespace Unbundle.Ledger.Plain

/-- The length of a place when it is written out. -/
def room (place : Place) : Nat := (Ascii.slash :: Path.join place).length

/-- All places that have to do with a ledger are written out in less than this. -/
def maxRoom : Nat := 512

/-- The place that names lead to over the text. Whatever they pass on the way may be missing, but
nothing but directories may lie above it. -/
def follow (disk : Disk) (place : Place) : List Bytes → Except Disk.Problem Place
  | [] => .ok place
  | name :: names =>
    if name = Path.here then follow disk place names
    else if name = Path.up then follow disk place.dropLast names
    else
      let next := place ++ [name]
      if maxRoom ≤ room next then .error .nameTooLong
      else
        match disk.follow [] next with
        | .ok _ | .error .missing => follow disk next names
        | .error problem => .error problem

/-- A place beside another, with the same name but for an ending. -/
def beside (place : Place) (ending : String) : Place :=
  place.dropLast ++ [place.getLastD [] ++ utf8 ending]

/-- Where a change is noted until it is complete. -/
def journalOf (place : Place) : Place := beside place "-journal"

/-- Where changes are gathered before they reach the ledger. -/
def logOf (place : Place) : Place := beside place "-wal"

/-- Where the way through a log is kept. -/
def indexOf (place : Place) : Place := beside place "-shm"

/-- Where the lock stands. -/
def lockOf (place : Place) : Place := beside place ".lock"

/-- Where the ledger of a path lies, unless there is no room for its journal. -/
def locate (disk : Disk) (path : Bytes) : Option Place :=
  match follow disk [] ((if Disk.isAbsolute path then [] else disk.current) ++ Disk.names path) with
  | .error _ => none
  | .ok place =>
    if place ≠ [] ∧ room (journalOf place) ≤ maxRoom then some place else none

end Unbundle.Ledger.Plain
