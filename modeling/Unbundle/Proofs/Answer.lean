import Mathlib.Data.List.Forall2
import Unbundle.Bytes

namespace Unbundle

variable {ε α β : Type}

theorem bind_eq_ok {first : Except ε α} {next : α → Except ε β} {answer : β} :
    first >>= next = .ok answer ↔ ∃ value, first = .ok value ∧ next value = .ok answer := by
  cases first <;> simp [bind, Except.bind]

theorem bind_eq_error {first : Except ε α} {next : α → Except ε β} {problem : ε} :
    first >>= next = .error problem ↔
      first = .error problem ∨ ∃ value, first = .ok value ∧ next value = .error problem := by
  cases first <;> simp [bind, Except.bind]

theorem map_eq_ok {value : Except ε α} {f : α → β} {answer : β} :
    value.map f = .ok answer ↔ ∃ found, value = .ok found ∧ f found = answer := by
  cases value <;> simp [Except.map]

theorem map_eq_error {value : Except ε α} {f : α → β} {problem : ε} :
    value.map f = .error problem ↔ value = .error problem := by
  cases value <;> simp [Except.map]

theorem check_eq_ok {refused : Prop} [Decidable refused] {problem : ε} {next : Except ε α}
    {answer : α} :
    (if refused then .error problem else next) = .ok answer ↔ ¬refused ∧ next = .ok answer := by
  by_cases refused <;> simp [*]

theorem mapM_eq_ok {f : α → Except ε β} {list : List α} {answers : List β} :
    list.mapM f = .ok answers ↔
      List.Forall₂ (fun value answer => f value = .ok answer) list answers := by
  induction list generalizing answers with
  | nil => cases answers <;> simp [pure, Except.pure]
  | cons value list ih =>
    simp only [List.mapM_cons, bind_eq_ok, List.forall₂_cons_left_iff, ih]
    constructor
    · rintro ⟨first, answered, others, rest, same⟩
      cases same
      exact ⟨first, others, answered, rest, rfl⟩
    · rintro ⟨first, others, answered, rest, rfl⟩
      exact ⟨first, answered, others, rest, rfl⟩

/-- Two computations that refuse for one reason, or give answers that are related. -/
inductive BothAnswer (related : α → β → Prop) : Except ε α → Except ε β → Prop where
  | error (problem : ε) : BothAnswer related (.error problem) (.error problem)
  | ok {first : α} {second : β} (answers : related first second) :
      BothAnswer related (.ok first) (.ok second)

end Unbundle
