import Unbundle.Ledger.Plain.Codec
import Unbundle.Ledger.Transaction

namespace Unbundle.Ledger.Plain

namespace Layout

open Codec

/-- Every value is written with a mark, a number and a text, of which one counts. -/
def value : Codec Value :=
  (nat.pair <| int64.pair bytes).via
    (fun
      | (0, _, _) => .null
      | (1, number, _) => .integer number
      | (_, _, text) => .text text)
    (fun
      | .null => (0, 0, [])
      | .integer number => (1, number, [])
      | .text text => (2, 0, text))
    (by intro value; cases value <;> rfl)

/-- A numbered column is written as a list of one. -/
def table : Codec Table :=
  (bytes.pair <| bytes.list.pair <| bytes.list.pair bytes.list).via
    (fun (name, columns, number, key) => ⟨name, columns, number.head?, key⟩)
    (fun table => (table.name, table.columns, table.number?.toList, table.key))
    (by rintro ⟨name, columns, _ | number, key⟩ <;> rfl)

def contents : Codec Contents :=
  (table.pair value.list.list).via (fun (table, rows) => ⟨table, rows⟩)
    (fun contents => (contents.table, contents.rows)) (fun _ => rfl)

def tables : Codec Tables := contents.list

end Layout

/-- What a file with tables starts with. -/
def signature : Bytes := utf8 "unbundle ledger 2\n"

def encode (tables : Tables) : Bytes := signature ++ Layout.tables.write tables

/-- The tables in a file, if it holds some and nothing more. -/
def decode? (file : Bytes) : Option Tables := do
  if signature.isPrefixOf file then
    let (tables, rest) ← Layout.tables.read (file.drop signature.length)
    if rest = [] then some tables else none
  else none

/-- A file of a single byte counts as empty. -/
def isBlank : Bytes → Bool
  | [] | [_] => true
  | _ => false

/-- The tables that a file stands for. -/
def stored? (file : Bytes) : Option Tables := if isBlank file then some [] else decode? file

end Unbundle.Ledger.Plain
