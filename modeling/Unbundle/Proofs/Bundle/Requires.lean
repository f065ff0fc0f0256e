import Unbundle.Proofs.Bundle.Modules
import Unbundle.Proofs.Script.Quotes

/-!
The modules that a body requires, against the scan that finds the end of the body. Main statement:
the calls that this scan meets outside templates and not behind a dot are the dependencies of the
module, as far as the code is steady.
-/

namespace Unbundle

open Script Ascii

namespace Require

theorem walk_argument {text specifier past : Bytes}
    (found : argument? text = some (specifier, past)) (history : History) :
    visitor.walk false (history.word (utf8 "require")) text =
      visitor.walk false history.operand past := by
  obtain ⟨inside, opened, found⟩ := Option.bind_eq_some_iff.mp found
  obtain ⟨⟨specifier, after⟩, literal, found⟩ := Option.bind_eq_some_iff.mp found
  obtain ⟨past, closed, found⟩ := Option.bind_eq_some_iff.mp found
  cases found
  obtain ⟨quote, rest, start, quotes, read⟩ : ∃ quote rest,
      skipGaps inside = quote :: rest ∧ isQuote quote = true ∧
        Literal.read? quote rest = some (specifier, after) := by
    cases start : skipGaps inside with
    | nil =>
      rw [start] at literal
      cases literal
    | cons quote rest =>
      rw [start, Literal.quoted?, Option.ite_none_right_eq_some] at literal
      exact ⟨quote, rest, rfl, literal⟩
  have spelled (divides : Bool) : Piece.read? divides (quote :: rest) = some (.literal after) := by
    rw [Piece.read?_quote quotes, Literal.skipQuoted_of_read? quotes read]
    rfl
  calc visitor.walk false (history.word (utf8 "require")) text
      = visitor.walk false (history.word (utf8 "require")) (leftParen :: inside) := by
        rw [← visitor.walk_skipGaps, expect?_eq_some opened]
    _ = visitor.walk false ((history.word (utf8 "require")).mark leftParen) (quote :: rest) := by
        rw [visitor.walk_mark (Piece.read?_mark rfl _ inside), ← visitor.walk_skipGaps, start]
        rfl
    _ = visitor.walk false ((history.word (utf8 "require")).mark leftParen).operand
          (rightParen :: past) := by
        rw [visitor.walk_literal (spelled _), ← visitor.walk_skipGaps, expect?_eq_some closed]
    _ = visitor.walk false history.operand past := by
        rw [visitor.walk_mark (Piece.read?_mark rfl _ past)]
        rfl

variable {afterDot : Bool} {word rest specifier past : Bytes}

/-- The calls that the visitor makes something of. -/
theorem visit_cases (afterDot : Bool) (word rest : Bytes) :
    (visitor.visit afterDot word rest = {} ∧
      ¬(afterDot = false ∧ word = utf8 "require" ∧ argument? rest ≠ none)) ∨
    afterDot = false ∧ word = utf8 "require" ∧ ∃ specifier past,
      argument? rest = some (specifier, past) ∧ visitor.visit afterDot word rest =
        { found := if specifier = [] then [] else [specifier], past := some past } := by
  dsimp only [visitor]
  by_cases skipped : (afterDot || decide (word ≠ utf8 "require")) = true
  · rw [if_pos skipped]
    refine .inl ⟨rfl, ?_⟩
    rintro ⟨rfl, rfl, _⟩
    cases skipped
  rw [if_neg skipped]
  simp only [Bool.or_eq_true, decide_eq_true_eq, not_or, not_not, Bool.not_eq_true] at skipped
  cases read : argument? rest with
  | none => exact .inl ⟨rfl, fun called => called.2.2 rfl⟩
  | some pair => exact .inr ⟨skipped.1, skipped.2, pair.1, pair.2, rfl, rfl⟩

private theorem mem_visit : specifier ∈ (visitor.visit afterDot word rest).found ↔
    afterDot = false ∧ word = utf8 "require" ∧
      (∃ past, argument? rest = some (specifier, past)) ∧ specifier ≠ [] := by
  rcases visit_cases afterDot word rest with ⟨same, uncalled⟩ |
    ⟨code, named, spelled, past, read, same⟩
  · rw [same]
    refine ⟨nofun, fun ⟨code, named, ⟨past, read⟩, _⟩ => absurd ⟨code, named, ?_⟩ uncalled⟩
    rw [read]
    exact nofun
  · rw [same, read]
    by_cases empty : spelled = []
    · rw [if_pos empty]
      refine ⟨nofun, fun ⟨_, _, ⟨_, again⟩, spells⟩ => ?_⟩
      cases again
      exact absurd empty spells
    · rw [if_neg empty, List.mem_singleton]
      constructor
      · rintro rfl
        exact ⟨code, named, ⟨past, rfl⟩, empty⟩
      · rintro ⟨_, _, ⟨_, again⟩, _⟩
        cases again
        rfl

theorem lossless : visitor.Lossless := by
  intro afterDot word rest past passed history
  rcases visit_cases afterDot word rest with ⟨same, _⟩ | ⟨_, rfl, specifier, _, read, same⟩
  · rw [same] at passed
    cases passed
  · rw [same] at passed
    cases passed
    exact walk_argument read history

/-- A call at the end of the pieces before it: a word that is not behind a dot, and one literal that
spells something, in parentheses. -/
def Calls (pieces before : List Piece) (specifier : Bytes) : Prop :=
  ∃ rest past after, pieces = before ++ .word (utf8 "require") rest :: after ∧
    before.foldl Piece.dots false = false ∧ argument? rest = some (specifier, past) ∧ specifier ≠ []

theorem mem_shown {pieces : List Piece} :
    specifier ∈ visitor.shown false pieces ↔ ∃ before, Calls pieces before specifier := by
  rw [Visitor.mem_shown]
  constructor
  · rintro ⟨before, word, rest, after, split, finds⟩
    obtain ⟨code, rfl, ⟨past, read⟩, spelled⟩ := mem_visit.mp finds
    exact ⟨before, rest, past, after, split, code, read, spelled⟩
  · rintro ⟨before, rest, past, after, split, code, read, spelled⟩
    exact ⟨before, _, rest, after, split, mem_visit.mpr ⟨code, rfl, ⟨past, read⟩, spelled⟩⟩

theorem requires_calls {body : Bytes} {met : List Met}
    (traced : trace [.start] (body ++ [rightBrace]) = some (met, [])) :
    (∀ before specifier, Calls (outermost met) before specifier →
        Trail.other.steady before = true → specifier ∈ requires body) ∧
      (Trail.other.steady (outermost met) = true →
        ∀ specifier, specifier ∈ requires body ↔
          ∃ before, Calls (outermost met) before specifier) := by
  have alike : Trail.other.Alike .block {} := ⟨rfl, rfl, fun _ => rfl, fun _ => rfl⟩
  constructor
  · rintro before specifier ⟨rest, past, after, split, code, read, spelled⟩ steady
    have further : Trail.other.steady (before ++ [.word (utf8 "require") rest]) = true := by
      rw [Trail.steady_append, steady]
      simp [Trail.steady, Piece.isMark]
    rw [List.append_cons] at split
    obtain ⟨more, walks, _⟩ := walk_eq_shown lossless alike traced split further
    rw [requires, Visitor.run, walks]
    exact List.mem_append_left _ (mem_shown.mpr ⟨before, rest, past, [], rfl, code, read, spelled⟩)
  · intro steady specifier
    obtain ⟨more, walks, whole⟩ :=
      walk_eq_shown lossless alike traced (List.append_nil _).symm steady
    rw [requires, Visitor.run, walks, whole rfl, List.append_nil]
    exact mem_shown

end Require

namespace Bundle

variable {names : List Bytes} {text : Bytes} {record : ScriptModule}

/-- The calls that the scan for the end of a module's body meets outside templates are among the
dependencies of the module, as far as the code in front of them is steady. In code that is steady as
a whole there are no others but the listed ones. -/
theorem calls_are_dependencies (member : record ∈ (split names text).modules)
    (source : record.form = .source)
    (balanced : matchingBrace? (leftBrace :: record.body ++ [rightBrace]) 0 =
      some (record.body.length + 1)) :
    ∃ met, trace [.start] (record.body ++ [rightBrace]) = some (met, []) ∧
      (∀ before specifier, Require.Calls (outermost met) before specifier →
        Trail.other.steady before = true →
          Specifier.resolve record.path specifier ∈ record.dependencies) ∧
      (Trail.other.steady (outermost met) = true →
        ∃ call past path afterPath argument listed factory, call <:+ text ∧
          CallSite.read call = .ok (record, past) ∧
          CallSite.readPath call = .ok (path, afterPath) ∧
          CallSite.nextArgument .noFactoryAfterPath afterPath = .ok argument ∧
          CallSite.readDependencies argument = .ok (listed, factory) ∧
          ∀ dependency, dependency ∈ record.dependencies ↔
            (∃ specifier ∈ listed, Specifier.resolve record.path specifier = dependency) ∨
              ∃ before specifier, Require.Calls (outermost met) before specifier ∧
                Specifier.resolve record.path specifier = dependency) := by
  have closed := closeFrame_of_matchingBrace? balanced
  rw [← map_snd_trace] at closed
  obtain ⟨⟨met, _⟩, traced, rfl⟩ := Option.map_eq_some_iff.mp closed
  obtain ⟨complete, sound⟩ := Require.requires_calls traced
  obtain ⟨call, past, inside, read⟩ := exists_read_of_mem_modules member
  obtain ⟨path, afterPath, argument, listed, factory, payload, named, next, list, made, rfl⟩ :=
    CallSite.read_ok read
  refine ⟨met, traced, fun before specifier calls steady => ?_, fun steady => ?_⟩
  · exact (CallSite.mem_dependencies_toModule source).mpr
      (.inr ⟨specifier, complete before specifier calls steady, rfl⟩)
  · refine ⟨call, past, path, afterPath, argument, listed, factory, inside, read, named, next, list,
      fun dependency =>
        (CallSite.mem_dependencies_toModule source).trans (or_congr Iff.rfl ?_)⟩
    constructor
    · rintro ⟨specifier, required, resolved⟩
      obtain ⟨before, calls⟩ := (sound steady specifier).mp required
      exact ⟨before, specifier, calls, resolved⟩
    · rintro ⟨before, specifier, calls, resolved⟩
      exact ⟨specifier, (sound steady specifier).mpr ⟨before, calls⟩, resolved⟩

/-- A bundle with one module of the given body. -/
def bundleOf (body : String) : Bytes := utf8 ("define('m',function()\x7b" ++ body ++ "\x7d)")

def nestedCall : String := "if(x)\x7b/*require('b')*/y='require(\"c\")';require('./a')\x7d"

/-- A call in a block is met, and its module is a dependency. -/
theorem calls_are_dependencies_sample :
    ∃ record ∈ (split [utf8 "define"] (bundleOf nestedCall)).modules, record.form = .source ∧
      matchingBrace? (leftBrace :: record.body ++ [rightBrace]) 0 = some (record.body.length + 1) ∧
      ∃ met before, trace [.start] (record.body ++ [rightBrace]) = some (met, []) ∧
        Require.Calls (outermost met) before (utf8 "./a") ∧ Trail.other.steady before = true ∧
        Specifier.resolve record.path (utf8 "./a") ∈ record.dependencies := by
  obtain ⟨record, member, source, balanced, shown⟩ :
      ∃ record ∈ (split [utf8 "define"] (bundleOf nestedCall)).modules, record.form = .source ∧
        matchingBrace? (leftBrace :: record.body ++ [rightBrace]) 0 =
          some (record.body.length + 1) ∧
        (trace [.start] (record.body ++ [rightBrace])).map (fun found =>
          (Trail.other.steady (outermost found.1),
            Require.visitor.shown false (outermost found.1))) = some (true, [utf8 "./a"]) := by
    decide +kernel
  obtain ⟨met, traced, complete, _⟩ := calls_are_dependencies member source balanced
  rw [traced, Option.map_some, Option.some.injEq, Prod.mk.injEq] at shown
  obtain ⟨before, calls⟩ := Require.mem_shown.mp (shown.2 ▸ List.mem_singleton_self (utf8 "./a"))
  have steady : Trail.other.steady before = true := by
    obtain ⟨_, _, _, split, _⟩ := calls
    rw [split, Trail.steady_append, Bool.and_eq_true] at shown
    exact shown.1.1
  exact ⟨record, member, source, balanced, met, before, traced, calls, steady,
    complete before _ calls steady⟩

/-- The specifiers of the calls that the scan of a body meets, at any depth. -/
def callsMet (body : Bytes) : Option (List Bytes) :=
  (trace [.start] (body ++ [rightBrace])).map fun found => found.1.filterMap fun one =>
    match one.piece with
    | .word word rest =>
      if word = utf8 "require" then (Require.argument? rest).map Prod.fst else none
    | _ => none

/-- A call behind a spread is missed, as is one in an expression of a template. And a condition word
in front of a closing brace makes the scan take for a regular expression what the walk reads as a
call. -/
theorem calls_missed :
    (∀ body ∈ ["[...require('x')]", "\x60$\x7brequire('x')\x7d\x60"],
      ∃ record ∈ (split [utf8 "define"] (bundleOf body)).modules,
        record.form = .source ∧ record.body = utf8 body ∧
        matchingBrace? (leftBrace :: record.body ++ [rightBrace]) 0 =
          some (record.body.length + 1) ∧
        callsMet record.body = some [utf8 "x"] ∧
        Specifier.resolve record.path (utf8 "x") ∉ record.dependencies) ∧
    ∃ record ∈ (split [utf8 "define"]
        (bundleOf "(function()\x7breturn o.if\x7d(1)/require('x')/2)")).modules,
      record.form = .source ∧
      matchingBrace? (leftBrace :: record.body ++ [rightBrace]) 0 = some (record.body.length + 1) ∧
      callsMet record.body = some [] ∧
      Specifier.resolve record.path (utf8 "x") ∈ record.dependencies := by
  decide +kernel

end Bundle

end Unbundle
