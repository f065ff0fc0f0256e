import Unbundle.Ledger.Library
import Unbundle.Ledger.Store
import Unbundle.Proofs.Disk.Frame

/-!
What is expected of a library that keeps ledgers: that calls do what they do to tables kept in memory,
that what is kept is in the file of the ledger once it is closed, and that no other file is touched. Main
statement: a run that is recorded in a ledger touches no file but those of the ledger.
-/

namespace Unbundle

namespace Ledger

/-- Whether the tables of a run are the same. -/
def Tables.Same (tables others : Tables) : Prop :=
  ∀ table ∈ Table.all, others.find? table.name = tables.find? table.name

/-- The rows that a run puts into its tables, with a value of the right kind for each column. -/
inductive Insertion.Takes : Insertion → Row → Prop
  | package (path kind appId error : Bytes) (wasSealed ok entries modules : Int64) :
    Takes .packages [.text path, .text kind, .text appId, .integer wasSealed, .integer ok,
      .integer entries, .integer modules, .text error]
  | module (appId path kind : Bytes) (truncated size : Int64) :
    Takes .modules [.text appId, .text path, .text kind, .integer truncated, .integer size]
  | dependency (appId path dependency : Bytes) :
    Takes .dependencies [.text appId, .text path, .text dependency]
  | output (path digest : Bytes) (size crc32 : Int64) :
    Takes .outputs [.text path, .integer size, .integer crc32, .text digest]

/-- The calls that a run is recorded with. -/
inductive Call.Records : Call → Prop
  | begin : Records (.execute [.begin])
  | commit : Records (.execute [.commit])
  | rollback : Records (.execute [.rollback])
  | prepare {insertion : Insertion}
    (known : insertion ∈ [.packages, .modules, .dependencies, .outputs]) :
    Records (.prepare insertion)
  | insert {insertion : Insertion} {row : Row} (takes : insertion.Takes row) :
    Records (.insert insertion row)

namespace Library

/-- Once a ledger has the tables of a run, each call fails just if it is refused by the tables as they
are, and they are what the calls have made of them. In the file of a ledger there are those that are
kept. -/
structure Documented (library : Library) (disk : Disk) (address : Bytes) (older : Tables) : Prop where
  answers : ∀ calls call, (∀ other ∈ calls, other.Records) → call.Records →
    (library.answer disk address (.execute schema :: calls) call = none ↔
      ((State.after { kept := older } (.execute schema :: calls)).take call).1 = none)
  shows : ∀ calls, (∀ other ∈ calls, other.Records) →
    ∃ tables, library.select disk address (.execute schema :: calls) = some tables ∧
      (State.after { kept := older } (.execute schema :: calls)).seen.Same tables
  lasts : ∀ calls place, (∀ other ∈ calls, other.Records) →
    (library.files disk.current address).head? = some place →
      ∃ file tables,
        (library.close disk address (.execute schema :: calls)).file? place = some file ∧
        library.stored? file = some tables ∧
        (State.after { kept := older } (.execute schema :: calls)).kept.Same tables

/-- Whether a library touches no files but those of the ledger. -/
def Frames (library : Library) : Prop :=
  ∀ disk address calls, Disk.SameOutside (· ∈ library.files disk.current address) disk
    (library.close disk address calls)

end Library

/-- Whether a step goes on with the ledger that it is given. -/
def Session.Stays (step : Session → Bool × Session) : Prop :=
  ∀ session, (step session).2.toHandle = session.toHandle

namespace Session

private theorem stays_ask (complaint : String) (call : Call) : Stays fun session =>
    session.ask complaint call := by
  intro session
  dsimp only
  rw [ask]
  dsimp only
  split <;> rfl

private theorem stays_next {first second : Session → Bool × Session} (begins : Stays first)
    (ends : Stays second) :
    Stays fun session => (first session).2.next (first session).1 second := by
  intro session
  dsimp only
  rw [next]
  split
  · exact (ends _).trans (begins session)
  · exact begins session

private theorem stays_each {α : Type} {step : Session → α → Bool × Session}
    (stays : ∀ item, Stays fun session => step session item) (items : List α) :
    Stays fun session => session.each step items := by
  induction items with
  | nil => exact fun _ => rfl
  | cons item items ih => exact stays_next (stays item) ih

private theorem stays_modules (appId : Bytes) (registry : Registry) : Stays fun session =>
    session.storeModules appId registry := by
  have stores : Stays fun session =>
      session.each (fun session entry => session.storeModule appId entry.2) registry.toList :=
    stays_each (fun _ => stays_next (stays_ask _ _) (stays_each (fun _ => stays_ask _ _) _)) _
  intro session
  have prepared : ((session.prepare .modules).2.prepare .dependencies).2.toHandle =
      session.toHandle := (stays_ask _ _ _).trans (stays_ask _ _ _)
  dsimp only
  rw [storeModules]
  dsimp only
  rw [next]
  split
  · exact (stores _).trans prepared
  · exact prepared

private theorem stays_rows (reports : List PackageReport) (context : Context) : Stays fun session =>
    session.storeRows reports context := by
  have packages : Stays fun session => session.each storePackage reports :=
    stays_each (fun _ => stays_next (stays_ask _ _) (stays_ask _ _)) reports
  have modules : Stays fun session =>
      session.each (fun session entry => session.storeModules entry.1 entry.2)
        context.registries.toList :=
    stays_each (fun entry : Bytes × Registry => stays_modules entry.1 entry.2) _
  have outputs : Stays fun session => session.storeOutputs context.outputs :=
    stays_next (stays_ask _ _) (stays_each (fun _ => stays_ask _ _) _)
  exact stays_next (stays_next packages modules) outputs

private theorem stays_finish (ok : Bool) : Stays fun session => session.finish ok := by
  intro session
  dsimp only
  rw [finish]
  split
  · exact stays_ask ..
  · have asked := stays_ask "DB Error: " (.execute [.rollback]) session
    split
    · next rolled => rw [← asked]; exact congrArg (fun result => result.2.toHandle) rolled.symm
    · next rolled => rw [← asked]; exact congrArg (fun result => result.2.toHandle) rolled.symm

private theorem stays_all (reports : List PackageReport) (context : Context) : Stays fun session =>
    session.storeAll reports context := by
  intro session
  have filled := stays_next (stays_ask "DB Error: " (.execute [.begin]))
    (stays_rows reports context) session
  exact (stays_finish _ _).trans filled

end Session

end Ledger

namespace Workspace

variable {space : Workspace}

private theorem storeSession_toHandle (space : Workspace) (address : Bytes)
    (reports : List PackageReport) :
    (space.storeSession address reports).2.toHandle = (space.openLedger address).toHandle := by
  have setUp : (space.setUpLedger address).2.toHandle = (space.openLedger address).toHandle := by
    rw [setUpLedger]
    split
    · rfl
    · exact Ledger.Session.stays_ask ..
  rw [storeSession]
  dsimp only
  rw [Ledger.Session.next]
  split
  · exact (Ledger.Session.stays_all _ _ _).trans setUp
  · exact setUp

theorem storeRun_disk (space : Workspace) (address : Bytes) (reports : List PackageReport) :
    (space.storeRun address reports).2.disk = space.platform.ledgers.close space.disk address
      (space.storeSession address reports).2.calls := by
  have handle := space.storeSession_toHandle address reports
  have library := congrArg Ledger.Handle.library handle
  have disk := congrArg Ledger.Handle.disk handle
  have named := congrArg Ledger.Handle.address handle
  have closed : (space.storeRun address reports).2.disk =
      (space.closeLedger (space.storeSession address reports).2).disk := by
    rw [storeRun]
    dsimp only
    split <;> rfl
  rw [closed, closeLedger]
  dsimp only
  rw [library, disk, named]
  rfl

/-- Recording a run touches no file but those of the ledger. -/
theorem storeRun_sameOutside (frames : space.platform.ledgers.Frames) (address : Bytes)
    (reports : List PackageReport) :
    Disk.SameOutside (· ∈ space.platform.ledgers.files space.disk.current address) space.disk
      (space.storeRun address reports).2.disk := by
  rw [storeRun_disk]
  exact frames ..

end Workspace

end Unbundle
