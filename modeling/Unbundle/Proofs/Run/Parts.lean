import Unbundle.Proofs.Run.Registry

namespace Unbundle

namespace Workspace

variable {space after : Workspace} {policy : OverwritePolicy} {root appId : Bytes}

theorem perform_withKeyring (space : Workspace) (policy : OverwritePolicy) (root appId : Bytes)
    (action : Action) (keyring : Sealed.Keyring) :
    (space.withKeyring keyring).perform appId policy root action =
      ((space.perform appId policy root action).1,
        (space.perform appId policy root action).2.withKeyring keyring) := by
  cases action <;> rfl

theorem performAll_withKeyring (space : Workspace) (policy : OverwritePolicy) (root appId : Bytes)
    (plan : List Action) (keyring : Sealed.Keyring) :
    (space.withKeyring keyring).performAll appId policy root plan =
      ((space.performAll appId policy root plan).1,
        (space.performAll appId policy root plan).2.withKeyring keyring) := by
  induction plan generalizing space with
  | nil => rfl
  | cons action plan ih =>
    rw [performAll, performAll, perform_withKeyring]
    rcases space.perform appId policy root action with ⟨failure | outcome, next⟩
    · rfl
    · dsimp only
      rw [ih]
      rcases next.performAll appId policy root plan with ⟨failure | outcomes, final⟩ <;> rfl

theorem checkDependencies_withKeyring (space : Workspace) (package appId : Bytes)
    (paths : List Bytes) (keyring : Sealed.Keyring) :
    (space.withKeyring keyring).checkDependencies package appId paths =
      ((space.checkDependencies package appId paths).1,
        (space.checkDependencies package appId paths).2.withKeyring keyring) := by
  induction paths generalizing space with
  | nil => rfl
  | cons path paths ih =>
    have warned (missing : List Bytes) :
        (space.withKeyring keyring).warnMissing package path missing =
          (space.warnMissing package path missing).withKeyring keyring := by
      rw [warnMissing, warnMissing]
      by_cases named : missing.filter (· ≠ []) = []
      · rw [if_pos named, if_pos named]
      · rw [if_neg named, if_neg named]
        rfl
    rw [checkDependencies, checkDependencies, warned]
    dsimp only
    rw [ih]
    rfl

/-- A plan is carried out part by part. -/
theorem performAll_append (space : Workspace) (policy : OverwritePolicy) (root appId : Bytes)
    (first second : List Action) :
    space.performAll appId policy root (first ++ second) =
      match space.performAll appId policy root first with
      | (.error failure, after) => (.error failure, after)
      | (.ok outcomes, after) =>
        ((after.performAll appId policy root second).1.map (outcomes ++ ·),
          (after.performAll appId policy root second).2) := by
  induction first generalizing space with
  | nil =>
    rw [performAll, List.nil_append]
    dsimp only
    rcases space.performAll appId policy root second with ⟨failure | outcomes, final⟩ <;> rfl
  | cons action first ih =>
    rw [List.cons_append, performAll, performAll]
    rcases space.perform appId policy root action with ⟨failure | outcome, next⟩
    · rfl
    · dsimp only
      rw [ih]
      rcases next.performAll appId policy root first with ⟨failure | outcomes, middle⟩
      · rfl
      · dsimp only
        rcases middle.performAll appId policy root second with ⟨failure | others, final⟩
        · rfl
        · simp only [Except.map, List.append_assoc]

/-- Modules are checked one after the other. -/
theorem checkDependencies_append (space : Workspace) (package appId : Bytes)
    (first second : List Bytes) :
    space.checkDependencies package appId (first ++ second) =
      ((space.checkDependencies package appId first).1 +
          ((space.checkDependencies package appId first).2.checkDependencies package appId
            second).1,
        ((space.checkDependencies package appId first).2.checkDependencies package appId
          second).2) := by
  induction first generalizing space with
  | nil =>
    rw [checkDependencies, List.nil_append, Nat.zero_add]
  | cons path first ih =>
    rw [List.cons_append, checkDependencies, checkDependencies]
    dsimp only
    rw [ih, Nat.add_assoc]

/-- What a plan that was carried out has offered is known. -/
theorem knows_of_performAll {plan : List Action} {outcomes : List Outcome} {offer : Offer}
    (performed : space.performAll appId policy root plan = (.ok outcomes, after))
    (member : offer ∈ Plan.offers plan) : after.output.Knows offer.path offer.content := by
  induction plan generalizing space outcomes with
  | nil => cases member
  | cons action plan ih =>
    rw [performAll] at performed
    obtain ⟨_, made⟩ := space.perform_output policy root appId action
    rcases first : space.perform appId policy root action with ⟨failure | outcome, next⟩
    · rw [first] at performed
      cases performed
    rw [first] at performed made
    dsimp only at performed made
    have grew := next.performAll_enlarges policy root appId plan
    rcases others : next.performAll appId policy root plan with ⟨failure | rest, final⟩
    · rw [others] at performed
      cases performed
    rw [others] at performed grew
    obtain rfl : final = after := congrArg Prod.snd performed
    rw [Plan.offers, List.filterMap_cons] at member
    cases offered : action.offer? with
    | none =>
      rw [offered] at member
      exact ih others member
    | some other =>
      rw [offered] at member made
      rcases List.mem_cons.mp member with rfl | later
      · obtain ⟨taken, output⟩ := made
        obtain ⟨outcome', answered, _⟩ := map_eq_ok.mp taken.symm
        apply grew.knows
        rw [output]
        exact Output.offer_knows answered
      · exact ih others later

end Workspace

end Unbundle
