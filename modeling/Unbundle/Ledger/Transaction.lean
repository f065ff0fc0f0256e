import Unbundle.Ledger.Statement

/-!
What calls do to the tables of a ledger. What is changed in a transaction is kept when it is
committed, and gone when it is rolled back.
-/

namespace Unbundle.Ledger

structure Contents where
  table : Table
  rows : List Row := []
  deriving DecidableEq, Repr

/-- Why a call is refused. -/
inductive Refusal where
  | noTable (name : Bytes)
  | noColumn (table column : Bytes)
  | tableExists (name : Bytes)
  | duplicate (table : Table)
  | alreadyBegun
  | notBegun (word : String)
  deriving DecidableEq, Repr

def Refusal.message : Refusal → Bytes
  | noTable name => utf8 "no such table: " ++ name
  | noColumn table column =>
    utf8 "table " ++ table ++ utf8 " has no column named " ++ column
  | tableExists name => utf8 "table " ++ name ++ utf8 " already exists"
  | duplicate table =>
    utf8 "UNIQUE constraint failed: " ++
      (utf8 ", ").intercalate (table.key.map fun column => table.name ++ utf8 "." ++ column)
  | alreadyBegun => utf8 "cannot start a transaction within a transaction"
  | notBegun word => utf8 "cannot " ++ utf8 word ++ utf8 " - no transaction is active"

/-- The cells of a row in the columns of the key. -/
def Table.keyOf (table : Table) (row : Row) : Row :=
  ((table.columns.zip row).filter fun cell => cell.1 ∈ table.key).map Prod.snd

namespace Contents

/-- The row with the given cells in the given columns. A number that is not given is the next one. -/
def complete (contents : Contents) (columns : List Bytes) (cells : Row) : Row :=
  contents.table.columns.map fun column =>
    match (columns.zip cells).lookup column with
    | some value => value
    | none =>
      if contents.table.number? = some column then
        .integer (Int64.ofNat (contents.rows.length + 1))
      else .null

/-- Whether a row with the same key is there already. Without a value no key is the same. -/
def clashes (contents : Contents) (row : Row) : Bool :=
  let key := contents.table.keyOf row
  key ≠ [] && .null ∉ key && contents.rows.any fun other => contents.table.keyOf other = key

end Contents

abbrev Tables := List Contents

namespace Tables

def find? (tables : Tables) (name : Bytes) : Option Contents :=
  List.find? (fun contents => contents.table.name = name) tables

def drop (tables : Tables) (name : Bytes) : Tables :=
  tables.filter fun contents => contents.table.name ≠ name

def add (tables : Tables) (name : Bytes) (row : Row) : Tables :=
  tables.map fun contents =>
    if contents.table.name = name then { contents with rows := contents.rows ++ [row] }
    else contents

end Tables

/-- The tables that are kept, and what a transaction that is under way has made of them. -/
structure State where
  kept : Tables := []
  changed? : Option Tables := none
  deriving DecidableEq, Repr

namespace State

def seen (state : State) : Tables := state.changed?.getD state.kept

def change (state : State) (tables : Tables) : State :=
  match state.changed? with
  | none => { state with kept := tables }
  | some _ => { state with changed? := some tables }

def run (state : State) : Statement → Except Refusal State
  | .drop name => .ok (state.change (state.seen.drop name))
  | .create table =>
    if (state.seen.find? table.name).isSome then .error (.tableExists table.name)
    else .ok (state.change (state.seen ++ [{ table }]))
  | .begin =>
    match state.changed? with
    | none => .ok { state with changed? := some state.kept }
    | some _ => .error .alreadyBegun
  | .commit =>
    match state.changed? with
    | none => .error (.notBegun "commit")
    | some tables => .ok { kept := tables }
  | .rollback =>
    match state.changed? with
    | none => .error (.notBegun "rollback")
    | some _ => .ok { kept := state.kept }

/-- Statements are carried out up to the first that is refused. -/
def execute (state : State) : List Statement → Option Refusal × State
  | [] => (none, state)
  | statement :: script =>
    match state.run statement with
    | .error refusal => (some refusal, state)
    | .ok state => state.execute script

/-- The table that an insertion goes into, if it has all the columns. -/
def target (state : State) (insertion : Insertion) : Except Refusal Contents :=
  match state.seen.find? insertion.table with
  | none => .error (.noTable insertion.table)
  | some contents =>
    match insertion.columns.find? (· ∉ contents.table.columns) with
    | none => .ok contents
    | some column => .error (.noColumn insertion.table column)

def take (state : State) : Call → Option Refusal × State
  | .execute script => state.execute script
  | .prepare insertion =>
    match state.target insertion with
    | .error refusal => (some refusal, state)
    | .ok _ => (none, state)
  | .insert insertion cells =>
    match state.target insertion with
    | .error refusal => (some refusal, state)
    | .ok contents =>
      let row := contents.complete insertion.columns cells
      if contents.clashes row then (some (.duplicate contents.table), state)
      else (none, state.change (state.seen.add insertion.table row))
  | .select name =>
    ((if (state.seen.find? name).isSome then none else some (.noTable name)), state)

/-- The state once calls have been made, one after the other. -/
def after (state : State) (calls : List Call) : State :=
  calls.foldl (fun state call => (state.take call).2) state

end State

end Unbundle.Ledger
