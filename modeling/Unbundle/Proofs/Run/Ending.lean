import Unbundle.Proofs.Run.Offers
import Unbundle.Proofs.Run.Preparation

namespace Unbundle.Workspace

/-- The files that a run offers to its output, in order. -/
def offers (space : Workspace) (policy : OverwritePolicy) (root input : Bytes) : List Offer :=
  match space.findPackages input with
  | .error _ => []
  | .ok found =>
    if found.queue.packages = [] then []
    else
      match (space.log .info (modeText found)).prepare policy root with
      | (false, _) => []
      | (true, space) =>
        space.queueOffers policy root
          (space.context.settings.failurePolicy.proceeds found.inDirectory) found.queue.packages

/-- The packages that a run reaches, each with the workspace that it finds. -/
def runStages (space : Workspace) (policy : OverwritePolicy) (root input : Bytes) :
    List (Workspace × Package) :=
  match space.findPackages input with
  | .error _ => []
  | .ok found =>
    if found.queue.packages = [] then []
    else
      match (space.log .info (modeText found)).prepare policy root with
      | (false, _) => []
      | (true, begun) =>
        begun.stages policy root
          (space.context.settings.failurePolicy.proceeds found.inDirectory) found.queue.packages

/-- Whether a run has nothing to unpack. -/
def Idle (space : Workspace) (input : Bytes) : Prop :=
  ∀ found, space.findPackages input = .ok found → found.queue.packages = []

/-- All that can come of a run: there is nothing to unpack, the output root is not prepared, or the
packages are unpacked below it and the run is concluded. -/
inductive Ran (space : Workspace) (policy : OverwritePolicy) (root input : Bytes) :
    List Offer → List (Workspace × Package) → RunReport × Workspace → Prop where
  | idle {reason : Bytes} {journal : Journal} (idle : space.Idle input) :
    Ran space policy root input [] [] ({ abort := some reason }, { space with journal })
  | unprepared {found : Found} {begun : Workspace} {reason : Bytes}
    (finds : space.findPackages input = .ok found) (filled : found.queue.packages ≠ [])
    (left : (space.log .info (modeText found)).prepare policy root = (false, begun))
    (cleared : begun.disk = (space.disk.prepared policy root).2)
    (context : begun.context = space.context) :
    Ran space policy root input [] [] ({ abort := some reason }, begun)
  | done {found : Found} {begun after : Workspace} {reports : List PackageReport}
    {stop : Option Bytes} (finds : space.findPackages input = .ok found)
    (filled : found.queue.packages ≠ [])
    (ready : (space.log .info (modeText found)).prepare policy root = (true, begun))
    (prepared : space.disk.prepared policy root = (none, begun.disk))
    (context : begun.context = space.context) (platform : begun.platform = space.platform)
    (unpacked : begun.unpackQueue policy root
      (space.context.settings.failurePolicy.proceeds found.inDirectory) found.queue.packages =
        (reports, stop, after)) :
    Ran space policy root input
      (begun.queueOffers policy root
        (space.context.settings.failurePolicy.proceeds found.inDirectory) found.queue.packages)
      (begun.stages policy root
        (space.context.settings.failurePolicy.proceeds found.inDirectory) found.queue.packages)
      (after.conclude root reports stop)

theorem ran (space : Workspace) (policy : OverwritePolicy) (root input : Bytes) :
    Ran space policy root input (space.offers policy root input)
      (space.runStages policy root input) (space.unpack policy root input) := by
  rw [offers, runStages, unpack]
  dsimp only
  cases finds : space.findPackages input with
  | error reason => exact .idle fun found finds' => nomatch finds.symm.trans finds'
  | ok found =>
    dsimp only
    by_cases empty : found.queue.packages = []
    · rw [if_pos empty, if_pos empty, if_pos empty]
      refine .idle fun other finds' => ?_
      cases finds.symm.trans finds'
      exact empty
    rw [if_neg empty, if_neg empty, if_neg empty]
    rcases ready : (space.log .info (modeText found)).prepare policy root with ⟨_ | _, begun⟩
    · have left := (space.log .info (modeText found)).prepare_eq policy root
      rw [ready] at left
      exact .unprepared finds empty ready left.2.1 left.2.2
    · obtain ⟨prepared, context⟩ := prepared_of_prepare ready
      have platform := (space.log .info (modeText found)).platform_prepare policy root
      rw [ready] at platform
      dsimp only
      rw [show begun.context = space.context from context]
      exact .done finds empty ready prepared context platform rfl

end Unbundle.Workspace
