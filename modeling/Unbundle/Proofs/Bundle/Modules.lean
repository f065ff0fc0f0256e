import Unbundle.Bundle.Scan
import Unbundle.Proofs.Answer
import Unbundle.Proofs.Path.Canonical
import Unbundle.Proofs.Script.Walk

namespace Unbundle

open Script

namespace CallSite

/-- The path of a call is what its first literal names. -/
theorem readPath_eq_ok {text path rest : Bytes} : readPath text = .ok (path, rest) ↔
    ∃ written, Literal.quoted? (skipGaps text) = some (written, rest) ∧
      Path.canonical? written = some path := by
  rw [readPath]
  cases skipGaps text with
  | nil => simp [Literal.quoted?]
  | cons b inside =>
    dsimp only
    rw [Literal.quoted?]
    by_cases quotes : Ascii.isQuote b = true
    · rw [if_pos quotes, if_pos quotes]
      cases Literal.read? b inside with
      | none => simp
      | some pair => cases canonical : Path.canonical? pair.1 <;> simp [Prod.ext_iff, canonical, and_comm]
    · rw [if_neg quotes, if_neg quotes]
      simp

private theorem canonical_of_readPath {text path rest : Bytes}
    (found : readPath text = .ok (path, rest)) :
    Path.Canonical path := by
  obtain ⟨written, _, canonical⟩ := readPath_eq_ok.mp found
  exact Path.canonical_of_canonical? canonical

/-- A call that is understood has a path, a factory, and dependencies between them. -/
theorem read_ok {text past : Bytes} {record : ScriptModule} (found : read text = .ok (record, past)) :
    ∃ path afterPath argument listed factory payload,
      readPath text = .ok (path, afterPath) ∧
      nextArgument .noFactoryAfterPath afterPath = .ok argument ∧
      readDependencies argument = .ok (listed, factory) ∧
      readFactory factory = .ok (payload, past) ∧ record = toModule path listed payload := by
  rw [read] at found
  obtain ⟨⟨path, afterPath⟩, first, found⟩ := bind_eq_ok.mp found
  obtain ⟨argument, second, found⟩ := bind_eq_ok.mp found
  obtain ⟨⟨listed, factory⟩, third, found⟩ := bind_eq_ok.mp found
  obtain ⟨⟨payload, past⟩, fourth, found⟩ := bind_eq_ok.mp found
  cases found
  exact ⟨path, afterPath, argument, listed, factory, payload, first, second, third, fourth, rfl⟩

private theorem canonical_of_read {text past : Bytes} {record : ScriptModule}
    (found : read text = .ok (record, past)) : Path.Canonical record.path := by
  obtain ⟨path, _, _, listed, _, payload, named, _, _, _, rfl⟩ := read_ok found
  exact canonical_of_readPath named

variable {path dependency : Bytes} {listed : List Bytes} {payload : Payload}

/-- The dependencies of a module in source form are those that its call lists and those that its
body requires. -/
theorem mem_dependencies_toModule (source : payload.form = .source) :
    dependency ∈ (toModule path listed payload).dependencies ↔
      (∃ specifier ∈ listed, Specifier.resolve path specifier = dependency) ∨
        ∃ specifier ∈ requires payload.body, Specifier.resolve path specifier = dependency := by
  rw [toModule, Std.ExtTreeSet.mem_ofList, List.contains_iff_mem, source, List.map_append,
    List.mem_append, List.mem_map, List.mem_map]

end CallSite

namespace Bundle

/-- What a visit finds at a name with a parenthesis behind it. -/
theorem visit_name (size : Nat) {names : List Bytes} {name rest inside : Bytes}
    (named : name ∈ names) (opened : expect? Ascii.leftParen (skipGaps rest) = some inside) :
    (visitor size names).visit false name rest =
      match CallSite.read inside with
      | .ok (record, past) =>
        ⟨[.site (size - (name.length + rest.length)) (size - past.length) record], some past⟩
      | .error refusal =>
        ⟨[.unrecognized (size - (name.length + rest.length)) (size - refusal.rest.length)
          refusal.defect], none⟩ := by
  cases read : CallSite.read inside <;> simp [visitor, named, opened, read]

/-- What a visit finds, and where the walk goes on: behind a call that was understood, and behind
the word otherwise. -/
theorem visit_cases (size : Nat) (names : List Bytes) (afterDot : Bool) (word rest : Bytes) :
    (visitor size names).visit afterDot word rest = {} ∨
    word ∈ names ∧ ∃ inside, expect? Ascii.leftParen (skipGaps rest) = some inside ∧
      ((∃ record past, CallSite.read inside = .ok (record, past) ∧
        (visitor size names).visit afterDot word rest =
          ⟨[.site (size - (word.length + rest.length)) (size - past.length) record],
            some past⟩) ∨
      ∃ refusal, CallSite.read inside = .error refusal ∧
        (visitor size names).visit afterDot word rest =
          ⟨[.unrecognized (size - (word.length + rest.length)) (size - refusal.rest.length)
            refusal.defect], none⟩) := by
  by_cases skipped : (afterDot || decide (word ∉ names)) = true
  · exact .inl (if_pos skipped)
  cases opened : expect? Ascii.leftParen (skipGaps rest) with
  | none =>
    refine .inl ?_
    dsimp only [visitor]
    rw [if_neg skipped, opened]
  | some inside =>
    simp only [Bool.or_eq_true, decide_eq_true_eq, not_or, not_not, Bool.not_eq_true] at skipped
    obtain ⟨rfl, named⟩ := skipped
    refine .inr ⟨named, inside, rfl, ?_⟩
    rw [visit_name size named opened]
    cases read : CallSite.read inside with
    | error refusal => exact .inr ⟨refusal, rfl, rfl⟩
    | ok pair => exact .inl ⟨pair.1, pair.2, rfl, rfl⟩

/-- A module of a bundle was read from some call in it. -/
theorem exists_read_of_mem_modules {names : List Bytes} {text : Bytes} {record : ScriptModule}
    (member : record ∈ (split names text).modules) :
    ∃ inside past, inside <:+ text ∧ CallSite.read inside = .ok (record, past) := by
  obtain ⟨item, scanned, found⟩ := List.mem_filterMap.mp member
  obtain ⟨afterDot, word, rest, place, visited⟩ :=
    Visitor.exists_visit _ (List.suffix_refl text) scanned
  rcases visit_cases text.length names afterDot word rest with nothing |
    ⟨_, inside, opened, ⟨site, past, read, same⟩ | ⟨refusal, _, same⟩⟩
  · rw [nothing] at visited
    cases visited
  · rw [same] at visited
    obtain rfl := List.mem_singleton.mp visited
    cases found
    have behind : inside <:+ text := (expect?_suffix opened).trans
      ((skipGaps_suffix rest).trans ((List.suffix_append word rest).trans place))
    exact ⟨inside, past, behind, read⟩
  · rw [same] at visited
    obtain rfl := List.mem_singleton.mp visited
    cases found

theorem canonical_of_mem_modules {names : List Bytes} {text : Bytes} {record : ScriptModule}
    (member : record ∈ (split names text).modules) : Path.Canonical record.path := by
  obtain ⟨_, _, _, found⟩ := exists_read_of_mem_modules member
  exact CallSite.canonical_of_read found

end Bundle

end Unbundle
