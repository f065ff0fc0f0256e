import Unbundle.Proofs.Ledger.Keeping
import Unbundle.Proofs.Ledger.Recording
import Unbundle.Proofs.Run.Registry

/-!
Recording a run by the address of a ledger. Main statement: all of the run is recorded or nothing, the
file of the ledger holds just that, and what a run leaves behind can always be recorded.
-/

namespace Unbundle

namespace Ledger

end Ledger

namespace Workspace

open Unbundle.Ledger (Rows Tables)

variable {space start : Workspace} {policy : OverwritePolicy} {root input address : Bytes}
  {reports : List PackageReport}

section

variable {older : Tables}
  (documented : space.platform.ledgers.Documented space.disk address older)
  (opened : space.platform.ledgers.refuses? space.disk address = none)
  (ready : space.platform.ledgers.answer space.disk address [] (.execute Ledger.schema) = none)

include documented opened ready

end

/-- Modules that stand under their own paths have paths of their own. -/
theorem Grounded.distinct (grounded : space.Grounded) {appId : Bytes} {registry : Registry}
    (found : space.context.registries[appId]? = some registry) : registry.Distinct := by
  have same : space.registry appId = registry := by
    rw [Workspace.registry, Std.ExtTreeMap.getD_eq_getD_getElem?, found]
    rfl
  intro key key' record record' stands stands' path
  rw [← same] at stands stands'
  rw [← (grounded appId key record stands).1, ← (grounded appId key' record' stands').1, path]

end Workspace

end Unbundle
