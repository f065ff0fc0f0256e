import Unbundle.Run.Report
import Unbundle.Run.Workspace

namespace Unbundle

namespace Ledger

namespace Table

def packages : Table where
  name := utf8 "packages"
  columns := ["id", "path", "kind", "app_id", "encrypted", "ok", "entries", "modules",
    "error"].map utf8
  number? := some (utf8 "id")

def modules : Table where
  name := utf8 "modules"
  columns := ["app_id", "path", "kind", "truncated", "size"].map utf8
  key := ["app_id", "path"].map utf8

def dependencies : Table where
  name := utf8 "dependencies"
  columns := ["app_id", "module", "dependency"].map utf8

def outputs : Table where
  name := utf8 "outputs"
  columns := ["path", "size", "crc32", "sha256"].map utf8
  key := [utf8 "path"]

/-- All tables of a run. -/
def all : List Table := [packages, modules, dependencies, outputs]

end Table

/-- The tables of a run, in the place of those that were there before. -/
def schema : List Statement :=
  Table.all.map (fun table => .drop table.name) ++ Table.all.map .create

namespace Insertion

def packages : Insertion where
  table := utf8 "packages"
  columns := ["path", "kind", "app_id", "encrypted", "ok", "entries", "modules", "error"].map utf8

def modules : Insertion where
  table := utf8 "modules"
  columns := ["app_id", "path", "kind", "truncated", "size"].map utf8

def dependencies : Insertion where
  table := utf8 "dependencies"
  columns := ["app_id", "module", "dependency"].map utf8

def outputs : Insertion where
  table := utf8 "outputs"
  columns := ["path", "size", "crc32", "sha256"].map utf8

end Insertion

namespace Value

def ofBool (b : Bool) : Value := .integer (if b then 1 else 0)

def ofNat (n : Nat) : Value := .integer (Int64.ofNat n)

end Value

/-- The word that a module's form is recorded with. -/
def formName : Form → String
  | .source => "source"
  | .bytecode => "bytecode"

/-- A ledger to be opened on a disk by a library. -/
structure Handle where
  library : Library
  disk : Disk
  address : Bytes

/-- An open ledger, with the calls made so far and the lines that tell of those that failed. -/
structure Session extends Handle where
  calls : List Call := []
  journal : Journal

namespace Session

variable {α : Type}

/-- Makes a call, and tells whether it went well. -/
def ask (session : Session) (complaint : String) (call : Call) : Bool × Session :=
  let answer := session.library.answer session.disk session.address session.calls call
  let session := { session with calls := session.calls ++ [call] }
  match answer with
  | none => (true, session)
  | some reason =>
    (false, { session with journal := session.journal.log .error (utf8 complaint ++ reason) })

def execute (session : Session) (script : List Statement) : Bool × Session :=
  session.ask "DB Error: " (.execute script)

def prepare (session : Session) (insertion : Insertion) : Bool × Session :=
  session.ask "DB Prepare Error: " (.prepare insertion)

def insert (session : Session) (insertion : Insertion) (row : Row) : Bool × Session :=
  session.ask "DB Insert Error: " (.insert insertion row)

/-- What is to be done next, if all went well so far. -/
def next (session : Session) (ok : Bool) (step : Session → Bool × Session) : Bool × Session :=
  if ok then step session else (false, session)

/-- One item after the other, up to the first that fails. -/
def each (session : Session) (step : Session → α → Bool × Session) : List α → Bool × Session
  | [] => (true, session)
  | item :: items =>
    let (ok, session) := step session item
    session.next ok fun session => session.each step items

def storePackage (session : Session) (report : PackageReport) : Bool × Session :=
  let (ok, session) := session.prepare .packages
  session.next ok fun session =>
    session.insert .packages
      [.text report.path, .text (utf8 report.kind.name), .text report.appId,
        .ofBool report.wasSealed, .ofBool report.ok, .ofNat report.entries,
        .ofNat report.modules, .text report.error]

/-- Records a module, and then what it depends on. -/
def storeModule (session : Session) (appId : Bytes) (record : ScriptModule) : Bool × Session :=
  let (ok, session) := session.insert .modules
    [.text appId, .text record.path, .text (utf8 (formName record.form)),
      .ofBool record.truncated, .ofNat record.body.length]
  session.next ok fun session =>
    session.each (fun session dependency =>
        session.insert .dependencies [.text appId, .text record.path, .text dependency])
      record.dependencies.toList

def storeModules (session : Session) (appId : Bytes) (registry : Registry) : Bool × Session :=
  let (forModules, session) := session.prepare .modules
  let (forDependencies, session) := session.prepare .dependencies
  session.next (forModules && forDependencies) fun session =>
    session.each (fun session entry => session.storeModule appId entry.2) registry.toList

def storeOutputs (session : Session) (index : OutputIndex) : Bool × Session :=
  let (ok, session) := session.prepare .outputs
  session.next ok fun session =>
    session.each (fun session (path, print) =>
        session.insert .outputs
          [.text path, .integer print.size.toInt64, .ofNat print.crc32.toNat,
            .text (Bytes.hex print.sha256)])
      index.toList

/-- Records packages, then modules, then outputs, up to the first row that fails. -/
def storeRows (session : Session) (reports : List PackageReport) (context : Context) :
    Bool × Session :=
  let (ok, session) := session.each storePackage reports
  let (ok, session) := session.next ok fun session =>
    session.each (fun session entry => session.storeModules entry.1 entry.2)
      context.registries.toList
  session.next ok fun session => session.storeOutputs context.outputs

/-- Ends a transaction, which is rolled back if anything failed. -/
def finish (session : Session) (ok : Bool) : Bool × Session :=
  if ok then session.execute [.commit]
  else
    match session.execute [.rollback] with
    | (true, session) => (false, session)
    | (false, session) =>
      (false, { session with
        journal := session.journal.log .warning
          (utf8 "Run metadata left incomplete in " ++ session.address) })

/-- Records a whole run in one transaction. -/
def storeAll (session : Session) (reports : List PackageReport) (context : Context) :
    Bool × Session :=
  let (ok, session) := session.execute [.begin]
  let (ok, session) := session.next ok fun session => session.storeRows reports context
  session.finish ok

end Session

end Ledger

namespace Workspace

open Unbundle.Ledger (Session)

def openLedger (space : Workspace) (address : Bytes) : Session where
  library := space.platform.ledgers
  disk := space.disk
  address
  journal := space.journal

/-- Opens a ledger and sets up its tables. -/
def setUpLedger (space : Workspace) (address : Bytes) : Bool × Session :=
  let session := space.openLedger address
  match session.library.refuses? session.disk session.address with
  | some reason =>
    (false, { session with
      journal := session.journal.log .error (utf8 "DB Open Error: " ++ reason) })
  | none => session.execute Ledger.schema

def closeLedger (space : Workspace) (session : Session) : Workspace :=
  { space with
    disk := session.library.close session.disk session.address session.calls
    journal := session.journal }

/-- The ledger of a run before it is closed, and whether all of the run is recorded there. -/
def storeSession (space : Workspace) (address : Bytes) (reports : List PackageReport) :
    Bool × Session :=
  let (ready, session) := space.setUpLedger address
  session.next ready fun session => session.storeAll reports space.context

/-- Records a run in the ledger of an address, and tells whether that went well. -/
def storeRun (space : Workspace) (address : Bytes) (reports : List PackageReport) :
    Bool × Workspace :=
  let (ok, session) := space.storeSession address reports
  let space := space.closeLedger session
  (ok, if ok then space.log .info (utf8 "Run metadata saved to " ++ address) else space)

end Workspace

end Unbundle
