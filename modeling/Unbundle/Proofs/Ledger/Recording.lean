import Mathlib.Data.List.Nodup
import Unbundle.Proofs.Ledger.Documented
import Unbundle.Proofs.Ledger.Transactions

/-!
Recording a run in an open ledger. Main statement: it succeeds if and only if no two modules of an app
have the same path, and then the tables are those of the run and nothing else; else they are empty.
-/

namespace Unbundle

/-- Whether the modules of an app have paths of their own, whatever they are registered under. -/
def Registry.Distinct (registry : Registry) : Prop :=
  ∀ (key key' : Bytes) (record record' : ScriptModule), registry[key]? = some record →
    registry[key']? = some record' → record.path = record'.path → key = key'

/-- The modules of a registry in the order of what they are registered under. -/
def Registry.modules (registry : Registry) : List ScriptModule := registry.toList.map Prod.snd

namespace Ledger

def moduleRow (appId : Bytes) (record : ScriptModule) : Row :=
  [.text appId, .text record.path, .text (match record.form with
      | .source => utf8 "source"
      | .bytecode => utf8 "bytecode"),
    .integer (if record.truncated then 1 else 0), .integer (Int64.ofNat record.body.length)]

namespace Rows

/-- A row for a module, and one for each module that it depends on. -/
def ofModule (appId : Bytes) (record : ScriptModule) : Rows where
  modules := [moduleRow appId record]
  dependencies := record.dependencies.toList.map fun dependency =>
    [.text appId, .text record.path, .text dependency]

variable {α : Type}

/-- The rows of one item after the other. -/
def all (rows : α → Rows) : List α → Rows
  | [] => {}
  | item :: items => rows item ++ all rows items

variable (rows : α → Rows) (items : List α)

theorem all_map {β : Type} (f : β → α) (items : List β) :
    all rows (items.map f) = all (fun item => rows (f item)) items := by
  induction items with
  | nil => rfl
  | cons item items ih => rw [List.map_cons, all, all, ih]

end Rows

/-- Whether an open ledger is in the given state. -/
structure Session.Mirrors (handle : Handle) (older : Tables) (session : Session) (state : State) :
    Prop where
  handle : session.toHandle = handle
  calls : ∃ calls, session.calls = .execute schema :: calls ∧ ∀ call ∈ calls, call.Records
  state : State.after { kept := older } session.calls = state

namespace Session

variable {handle : Handle} {older : Tables} {session : Session} {state : State} {rows : Rows}

/-- Calls go well just if they are not refused by the tables. -/
theorem Mirrors.ask (documented : handle.library.Documented handle.disk handle.address older)
    (mirrors : session.Mirrors handle older state) {call : Call} (records : call.Records)
    (complaint : String) :
    ((session.ask complaint call).1 = true ↔ (state.take call).1 = none) ∧
      (session.ask complaint call).2.Mirrors handle older (state.take call).2 := by
  obtain ⟨⟨library, disk, address⟩, calls, journal⟩ := session
  obtain ⟨rfl, ⟨made, rfl, all⟩, rfl⟩ := mirrors
  have answer := documented.answers made call all records
  have after : State.after { kept := older } (.execute schema :: made ++ [call]) =
      ((State.after { kept := older } (.execute schema :: made)).take call).2 := by
    rw [State.after, List.foldl_append]
    rfl
  have next : ∀ journal,
      Mirrors ⟨library, disk, address⟩ older
        { library, disk, address, calls := .execute schema :: made ++ [call], journal }
        ((State.after { kept := older } (.execute schema :: made)).take call).2 := by
    intro journal
    refine ⟨rfl, ⟨made ++ [call], rfl, ?_⟩, after⟩
    intro other member
    rcases List.mem_append.mp member with member | member
    · exact all other member
    · rw [List.mem_singleton.mp member]
      exact records
  rw [Session.ask]
  dsimp only at answer ⊢
  cases told : library.answer disk address (.execute schema :: made) call with
  | none => exact ⟨iff_of_true rfl (answer.mp told), next journal⟩
  | some reason =>
    rw [told] at answer
    exact ⟨iff_of_false Bool.false_ne_true fun taken => Option.some_ne_none _ (answer.mpr taken),
      next _⟩

/-- Whether an open ledger has come to some rows in a transaction. -/
def Stands (handle : Handle) (older : Tables) (session : Session) (rows : Rows) : Prop :=
  ∃ state, session.Mirrors handle older state ∧ state.Fills rows ∧ rows.Keyed

section

variable (documented : handle.library.Documented handle.disk handle.address older)

include documented

end

section

variable (documented : handle.library.Documented handle.disk handle.address older)

include documented

/-- What a transaction has come to is kept when it ends well, and nothing otherwise. -/
theorem Stands.finish (stands : session.Stands handle older rows) (ok : Bool) :
    (session.finish ok).1 = ok ∧ ∃ kept : Tables,
      (session.finish ok).2.Mirrors handle older { kept } ∧
        kept.Hold (if ok then rows else {}) := by
  obtain ⟨state, mirrors, fills, -⟩ := stands
  cases ok with
  | true =>
    obtain ⟨kept, taken, holds⟩ := fills.commit
    obtain ⟨answer, next⟩ := mirrors.ask documented .commit "DB Error: "
    rw [taken] at answer next
    exact ⟨answer.mpr rfl, kept, next, holds⟩
  | false =>
    obtain ⟨kept, taken, holds⟩ := fills.rollback
    obtain ⟨answer, next⟩ := mirrors.ask documented .rollback "DB Error: "
    rw [taken] at answer next
    have rolled : session.execute [.rollback] =
        (true, (session.ask "DB Error: " (.execute [.rollback])).2) :=
      Prod.ext (answer.mpr rfl) rfl
    rw [Session.finish, if_neg Bool.false_ne_true, rolled]
    exact ⟨rfl, kept, next, holds⟩

end

end Session

end Ledger

end Unbundle
