import Unbundle.Ledger.Store

namespace Unbundle

namespace Ledger

structure PackageRow where
  id : Nat
  path : Bytes
  kind : PackageKind
  appId : Bytes
  wasSealed : Bool
  ok : Bool
  entries : Int64
  modules : Int64
  error : Bytes
  deriving DecidableEq, Repr

structure ModuleRow where
  appId : Bytes
  path : Bytes
  form : Form
  truncated : Bool
  size : Int64
  deriving DecidableEq, Repr

structure DependencyRow where
  appId : Bytes
  path : Bytes
  dependency : Bytes
  deriving DecidableEq, Repr

/-- The digest is kept as hexadecimal text. -/
structure OutputRow where
  path : Bytes
  size : Int64
  crc32 : Int64
  sha256 : Bytes
  deriving DecidableEq, Repr

end Ledger

structure Ledger where
  packages : List Ledger.PackageRow := []
  modules : List Ledger.ModuleRow := []
  dependencies : List Ledger.DependencyRow := []
  outputs : List Ledger.OutputRow := []
  deriving DecidableEq, Repr

namespace Ledger

def PackageRow.ofRow? : Row → Option PackageRow
  | [.integer id, .text path, .text kind, .text appId, .integer wasSealed, .integer ok,
      .integer entries, .integer modules, .text error] =>
    some ⟨id.toNatClampNeg, path, if kind = utf8 "main" then .main else .subpackage, appId,
      wasSealed ≠ 0, ok ≠ 0, entries, modules, error⟩
  | _ => none

def ModuleRow.ofRow? : Row → Option ModuleRow
  | [.text appId, .text path, .text form, .integer truncated, .integer size] =>
    some ⟨appId, path, if form = utf8 "bytecode" then .bytecode else .source, truncated ≠ 0, size⟩
  | _ => none

def DependencyRow.ofRow? : Row → Option DependencyRow
  | [.text appId, .text path, .text dependency] => some ⟨appId, path, dependency⟩
  | _ => none

def OutputRow.ofRow? : Row → Option OutputRow
  | [.text path, .integer size, .integer crc32, .text sha256] => some ⟨path, size, crc32, sha256⟩
  | _ => none

def ofTables? (tables : Tables) : Option Ledger := do
  some {
    packages := ← (← tables.find? (utf8 "packages")).rows.mapM PackageRow.ofRow?
    modules := ← (← tables.find? (utf8 "modules")).rows.mapM ModuleRow.ofRow?
    dependencies := ← (← tables.find? (utf8 "dependencies")).rows.mapM DependencyRow.ofRow?
    outputs := ← (← tables.find? (utf8 "outputs")).rows.mapM OutputRow.ofRow? }

/-- Something to record: a package, the modules of an app, or all outputs. -/
inductive Item where
  | package (report : PackageReport)
  | modules (appId : Bytes) (registry : Registry)
  | outputs (index : OutputIndex)

namespace Session

def store (session : Session) : Item → Bool × Session
  | .package report => session.storePackage report
  | .modules appId registry => session.storeModules appId registry
  | .outputs index => session.storeOutputs index

/-- Records one item after the other, and tells of each whether it went well. -/
def storeEach (session : Session) : List Item → List Bool × Session
  | [] => ([], session)
  | item :: items =>
    let (ok, session) := session.store item
    let (results, session) := session.storeEach items
    (ok :: results, session)

end Session

end Ledger

namespace Workspace

open Unbundle.Ledger (Item)

/-- The tables of the ledger of an address. -/
def readLedger (space : Workspace) (address : Bytes) : Option Ledger × Workspace :=
  let session := space.openLedger address
  let (_, session) := session.ask "DB Prepare Error: " (.select (utf8 "packages"))
  ((session.library.select session.disk session.address session.calls).bind Ledger.ofTables?,
    { space.closeLedger session with journal := space.journal })

/-- Records items in the ledger of an address, in fresh tables, and tells of each whether it went
well. There is no answer if the ledger cannot be set up. -/
def recordAnew (space : Workspace) (address : Bytes) (items : List Item) :
    Option (List Bool) × Workspace :=
  match space.setUpLedger address with
  | (false, session) => (none, space.closeLedger session)
  | (true, session) =>
    let (results, session) := session.storeEach items
    (some results, space.closeLedger session)

/-- Records items in the ledger of an address as it stands. -/
def recordMore (space : Workspace) (address : Bytes) (items : List Item) :
    List Bool × Workspace :=
  let (results, session) := (space.openLedger address).storeEach items
  (results, space.closeLedger session)

end Workspace

end Unbundle
