import Unbundle.Bytes

namespace Unbundle.Ledger

inductive Value where
  | null
  | integer (value : Int64)
  | text (bytes : Bytes)
  deriving DecidableEq, Repr

abbrev Row := List Value

/-- A table has a name and columns. Its rows may be numbered in one of them, and no two of them agree
in all columns of the key. -/
structure Table where
  name : Bytes
  columns : List Bytes
  number? : Option Bytes := none
  key : List Bytes := []
  deriving DecidableEq, Repr

inductive Statement where
  | drop (name : Bytes)
  | create (table : Table)
  | begin
  | commit
  | rollback
  deriving DecidableEq, Repr

/-- A statement that puts rows into some columns of a table. -/
structure Insertion where
  table : Bytes
  columns : List Bytes
  deriving DecidableEq, Repr

/-- One call of a library: statements to be carried out, an insertion to be made ready, a row for
one, or a table to be read. -/
inductive Call where
  | execute (script : List Statement)
  | prepare (insertion : Insertion)
  | insert (insertion : Insertion) (row : Row)
  | select (name : Bytes)
  deriving DecidableEq, Repr

end Unbundle.Ledger
