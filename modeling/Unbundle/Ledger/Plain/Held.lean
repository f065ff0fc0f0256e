import Unbundle.Ledger.Plain.Layout
import Unbundle.Ledger.Plain.Trouble

namespace Unbundle.Ledger

/-- Whether a call is to change tables. -/
def Call.isChange : Call → Bool
  | execute script => script.any fun
    | .drop _ | .create _ => true
    | .begin | .commit | .rollback => false
  | insert .. => true
  | prepare _ | select _ => false

namespace Plain

/-- What an open ledger holds or why it cannot be read, why it cannot be changed if it cannot, and
whether it has been. -/
structure Held where
  state : Except Trouble State
  refusal : Option Trouble := none
  written : Bool := false

namespace Held

def ofFile (file : Bytes) (refusal : Option Trouble := none) : Held where
  state := match stored? file with
    | none => .error .notLedger
    | some kept => .ok { kept }
  refusal

/-- Why a call fails, if it does, and what is held then. -/
def take (held : Held) (call : Call) : Option Bytes × Held :=
  match held.state with
  | .error trouble => (some trouble.message, held)
  | .ok state =>
    match call.isChange, held.refusal with
    | true, some trouble => (some trouble.message, held)
    | _, _ =>
      let (refusal, state) := state.take call
      (refusal.map Refusal.message,
        { held with state := .ok state, written := held.written || call.isChange })

def after (held : Held) (calls : List Call) : Held :=
  calls.foldl (fun held call => (held.take call).2) held

end Held

end Plain

end Unbundle.Ledger
