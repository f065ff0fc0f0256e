import Unbundle.Proofs.Bundle.Grammar
import Unbundle.Proofs.Bundle.Requires
import Unbundle.Proofs.Script.Spelling

/-!
How a bundle spells the paths of its modules and their specifiers. Main statement: a call registers
what its literals write, and a call in a body requires what its literal writes, in whatever way they
spell it, as long as they write no character in halves.
-/

namespace Unbundle

open Script Ascii

variable {spelled path : String} {listed : List String} {text rest factory : Bytes}

namespace CallSite

/-- The elements of a list, each of which writes a text, from its bracket or a comma to its end. -/
inductive SpelledElements : List String → Bytes → Bytes → Prop
  | none (rest : Bytes) : SpelledElements [] (rightBracket :: rest) rest
  | last {spelled : String} {text after rest : Bytes} (element : Spelled spelled text after)
      (gap : Gaps after (rightBracket :: rest)) : SpelledElements [spelled] text rest
  | next {spelled : String} {others : List String} {text after behind following rest : Bytes}
      (element : Spelled spelled text after) (gap : Gaps after (comma :: behind))
      (start : Gaps behind following) (onward : SpelledElements others following rest) :
      SpelledElements (spelled :: others) text rest

/-- What stands in front of the factory of a call: a literal that writes the path of its module, and
literals that write its dependencies, if a list of them comes next. -/
inductive SpelledNames : String → List String → Bytes → Bytes → Prop
  | alone {path : String} {text start after behind factory : Bytes} (gap : Gaps text start)
      (literal : Spelled path start after) (next : Gaps after (comma :: behind))
      (onward : Gaps behind factory) (noList : expect? leftBracket factory = none) :
      SpelledNames path [] text factory
  | listed {path : String} {listed : List String}
      {text start after behind inside first closed further factory : Bytes}
      (gap : Gaps text start) (literal : Spelled path start after)
      (next : Gaps after (comma :: behind)) (opened : Gaps behind (leftBracket :: inside))
      (begins : Gaps inside first) (elements : SpelledElements listed first closed)
      (later : Gaps closed (comma :: further)) (onward : Gaps further factory) :
      SpelledNames path listed text factory

theorem SpelledElements.readList_eq (elements : SpelledElements listed text rest) :
    readList text = .ok (listed.map utf8, rest) := by
  induction elements with
  | none rest => exact readList_eq_ok.mpr (.inl ⟨rfl, rfl⟩)
  | last element gap =>
    exact readList_eq_ok.mpr (.inr ⟨_, [], _, rfl, element.quoted?, .inl ⟨rfl, gap⟩⟩)
  | next element gap start onward ih =>
    exact readList_eq_ok.mpr
      (.inr ⟨_, _, _, rfl, element.quoted?, .inr ⟨_, _, gap, start, ih⟩⟩)

/-- The parts of a call in front of its factory are read one by one. -/
theorem SpelledNames.parts (names : SpelledNames path listed text factory) :
    ∃ after argument, Literal.quoted? (skipGaps text) = some (utf8 path, after) ∧
      nextArgument .noFactoryAfterPath after = .ok argument ∧
      readDependencies argument = .ok (listed.map utf8, factory) := by
  cases names with
  | alone gap literal next onward noList =>
    refine ⟨_, _, gap.skipGaps_eq ▸ literal.quoted?, nextArgument_eq_ok.mpr ⟨_, next, onward⟩, ?_⟩
    rw [readDependencies, noList]
    rfl
  | listed gap literal next opened begins elements later onward =>
    refine ⟨_, _, gap.skipGaps_eq ▸ literal.quoted?, nextArgument_eq_ok.mpr ⟨_, next, opened⟩, ?_⟩
    rw [readDependencies, expect?, if_pos rfl]
    dsimp only
    rw [begins.skipGaps_eq, elements.readList_eq]
    exact bind_eq_ok.mpr
      ⟨_, rfl, bind_eq_ok.mpr ⟨_, nextArgument_eq_ok.mpr ⟨_, later, onward⟩, rfl⟩⟩

private theorem SpelledNames.read_eq (names : SpelledNames path listed text factory) {name : Bytes}
    (canonical : Path.canonical? (utf8 path) = some name) :
    read text = (readFactory factory).map fun (payload, past) =>
      (toModule name (listed.map utf8) payload, past) := by
  obtain ⟨after, argument, literal, next, dependencies⟩ := names.parts
  have first : readPath text = .ok (name, after) :=
    readPath_eq_ok.mpr ⟨_, literal, canonical⟩
  simp only [read, first, next, dependencies, bind, Except.bind]
  cases readFactory factory <;> rfl

theorem SpelledNames.read_unusable (names : SpelledNames path listed text factory)
    (unusable : Path.canonical? (utf8 path) = none) :
    ∃ after, read text = .error ⟨.unusablePath (utf8 path), after⟩ := by
  obtain ⟨after, argument, literal, -, -⟩ := names.parts
  refine ⟨after, bind_eq_error.mpr (.inl ?_)⟩
  rw [readPath]
  cases start : skipGaps text with
  | nil => simp [start, Literal.quoted?] at literal
  | cons quote inside =>
    simp only [start, Literal.quoted?, Option.ite_none_right_eq_some] at literal
    simp only [if_pos literal.1, literal.2, unusable]

end CallSite

namespace Require

/-- The parentheses of a call around a literal that writes a text. -/
inductive SpelledArgument : String → Bytes → Bytes → Prop
  | intro {spelled : String} {text inside start after past : Bytes}
      (opened : Gaps text (leftParen :: inside)) (gap : Gaps inside start)
      (literal : Spelled spelled start after) (closed : Gaps after (rightParen :: past)) :
      SpelledArgument spelled text past

private theorem SpelledArgument.argument?_eq (argument : SpelledArgument spelled text rest) :
    argument? text = some (utf8 spelled, rest) := by
  obtain ⟨opened, gap, literal, closed⟩ := argument
  simp [argument?, expect?_gaps.mpr opened, gap.skipGaps_eq, literal.quoted?,
    expect?_gaps.mpr closed]

theorem SpelledArgument.visit_eq (argument : SpelledArgument spelled text rest) :
    visitor.visit false (utf8 "require") text =
      ⟨if spelled = "" then [] else [utf8 spelled], some rest⟩ := by
  rcases visit_cases false (utf8 "require") text with ⟨_, uncalled⟩ |
    ⟨_, _, specifier, past, read, visited⟩
  · exact absurd ⟨rfl, rfl, argument.argument?_eq ▸ Option.some_ne_none _⟩ uncalled
  · cases argument.argument?_eq.symm.trans read
    simp [visited, utf8_eq_nil]

end Require

/-- A literal is read up to its quote, and as the text that it writes just if it writes no character
in halves. With literals that write none in halves, a call registers the path that they write and
depends on what they write, or is refused for the path, and a call in a body requires what its
literal writes. -/
theorem spelled_read (quote : UInt8) (chars : List (Char × Style)) (path specifier : String)
    (listed : List String) (inside rest text factory argument past : Bytes) :
    (isQuote quote = true → Spells quote chars inside →
      Literal.read? quote (inside ++ quote :: rest) = some (chars.flatMap decoded, rest) ∧
      (chars.flatMap decoded = utf8 (String.ofList (chars.map Prod.fst)) ↔
        ∀ char ∈ chars, char.2 ≠ .halves)) ∧
    (CallSite.SpelledNames path listed text factory →
      (∀ name, Path.canonical? (utf8 path) = some name →
        CallSite.read text = (CallSite.readFactory factory).map fun (payload, past) =>
          (CallSite.toModule name (listed.map utf8) payload, past)) ∧
      (Path.canonical? (utf8 path) = none →
        ∃ after, CallSite.read text = .error ⟨.unusablePath (utf8 path), after⟩)) ∧
    (Require.SpelledArgument specifier argument past →
      Require.visitor.visit false (utf8 "require") argument =
        ⟨if specifier = "" then [] else [utf8 specifier], some past⟩) := by
  refine ⟨fun quotes spells => ⟨?literal, ?whole⟩, fun names => ⟨?usable, ?unusable⟩, ?required⟩
  case literal => exact Literal.read?_spells quotes spells rest
  case whole => exact flatMap_decoded_iff spells
  case usable => exact fun name canonical => names.read_eq canonical
  case unusable => exact names.read_unusable
  case required => exact fun spelled => spelled.visit_eq

/-- Escaped or not, the letters are read that were meant. -/
theorem spelled_read_sample :
    let behind := utf8 ", x => \x7b\x7d"
    let path := utf8 "\\x61\\\né"
    let call := singleQuote :: (path ++ singleQuote :: behind)
    let argument := utf8 "(\"\\u0062\\n\")"
    (isQuote singleQuote = true ∧ Spells singleQuote [('a', .byte), ('é', .raw)] path ∧
      Literal.read? singleQuote (call.drop 1) = some (utf8 "aé", behind)) ∧
    (CallSite.SpelledNames "aé" [] call (behind.drop 2) ∧
      Path.canonical? (utf8 "aé") = some (utf8 "aé") ∧
      CallSite.read call =
        .ok (CallSite.toModule (utf8 "aé") [] ⟨.source, [], false⟩, [])) ∧
    (CallSite.SpelledNames "" [] (utf8 "''" ++ behind) (behind.drop 2) ∧
      Path.canonical? (utf8 "") = none ∧
      ∃ after, CallSite.read (utf8 "''" ++ behind) = .error ⟨.unusablePath [], after⟩) ∧
    Require.SpelledArgument "b\n" argument [] ∧
      Require.visitor.visit false (utf8 "require") argument = ⟨[utf8 "b\n"], some []⟩ := by
  intro behind path call argument
  have quotes : isQuote singleQuote = true := rfl
  have written : Spells singleQuote [('a', .byte), ('é', .raw)] path :=
    .cons (.byte (hex_iff.mpr (by decide) : Hex 2 'a'.toNat [0x36, 0x31])) (by decide)
      (.continued (.cons (.raw (by decide)) (by decide) .nil))
  have letters : Spells doubleQuote [('b', .unit), ('\n', .letter)] (utf8 "\\u0062\\n") :=
    .cons (.unit (hex_iff.mpr (by decide) : Hex 4 'b'.toNat [0x30, 0x30, 0x36, 0x32])) (by decide)
      (.cons (.control (by decide : ('n', '\n') ∈ controlLetters)) (by decide) .nil)
  have next : Gaps behind (comma :: behind.drop 1) := gaps_iff.mpr (by decide +kernel)
  have onward : Gaps (behind.drop 1) (behind.drop 2) := gaps_iff.mpr (by decide +kernel)
  have noList : expect? leftBracket (behind.drop 2) = none := by decide +kernel
  have names : CallSite.SpelledNames "aé" [] call (behind.drop 2) :=
    .alone (gaps_iff.mpr (by decide +kernel)) (.literal quotes written (by decide)) next onward
      noList
  have nameless : CallSite.SpelledNames "" [] (utf8 "''" ++ behind) (behind.drop 2) :=
    .alone (gaps_iff.mpr (by decide +kernel)) (.literal quotes .nil (by decide)) next onward noList
  have called : Require.SpelledArgument "b\n" argument [] :=
    .intro (gaps_iff.mpr (by decide +kernel : skipGaps argument = leftParen :: argument.drop 1))
      (gaps_iff.mpr (by decide +kernel)) (.literal rfl letters (by decide))
      (gaps_iff.mpr (by decide +kernel : skipGaps [rightParen] = [rightParen]))
  have canonical : Path.canonical? (utf8 "aé") = some (utf8 "aé") := by decide +kernel
  have unusable : Path.canonical? (utf8 "") = none := by decide +kernel
  have function : CallSite.readFactory (behind.drop 2) = .ok (⟨.source, [], false⟩, []) := by
    decide +kernel
  obtain ⟨literal, call, require⟩ := spelled_read singleQuote [('a', .byte), ('é', .raw)] "aé"
    "b\n" [] path behind call (behind.drop 2) argument []
  obtain ⟨-, refused, -⟩ :=
    spelled_read singleQuote [] "" "" [] [] [] (utf8 "''" ++ behind) (behind.drop 2) [] []
  obtain ⟨read, text⟩ := literal quotes written
  have registered := (call names).1 _ canonical
  rw [function] at registered
  exact ⟨⟨quotes, written, text.mpr (by decide) ▸ read⟩, ⟨names, canonical, registered⟩,
    ⟨nameless, unusable, (refused nameless).2 unusable⟩, called, require called⟩

/-- A character in halves is read as two that are none. -/
theorem halves_misread :
    let high := utf8 "d83d"
    let low := utf8 "de00"
    let spelled := utf8 "\\u" ++ high ++ utf8 "\\u" ++ low
    Spells singleQuote [('😀', .halves)] spelled ∧
      Spelled "😀" (singleQuote :: (utf8 "😀" ++ [singleQuote])) [] ∧
      Literal.read? singleQuote (spelled ++ [singleQuote]) =
        some ([0xED, 0xA0, 0xBD, 0xED, 0xB8, 0x80], []) ∧
      utf8 "😀" = [0xF0, 0x9F, 0x98, 0x80] ∧
      let paths (literal : Bytes) := (Bundle.split [utf8 "define"] (utf8 "define('" ++ literal ++
        utf8 "',x=>\x7b\x7d)")).modules.map ScriptModule.path
      paths (utf8 "😀") = [utf8 "😀"] ∧ paths spelled ≠ [utf8 "😀"] := by
  intro high low spelled
  have first : Hex 4 (highHalf '😀') high := hex_iff.mpr (by decide +kernel)
  have second : Hex 4 (lowHalf '😀') low := hex_iff.mpr (by decide +kernel)
  have writes : Writes singleQuote '😀' .halves spelled := .halves (by decide) first second 0
  have written := Spells.cons writes (by decide +kernel) .nil
  rw [List.append_nil] at written
  have raw : Spelled "😀" (singleQuote :: (utf8 "😀" ++ [singleQuote])) [] :=
    .raw rfl (by simp [singleQuote, newline, backslash]) []
  exact ⟨written, raw, by decide +kernel⟩

end Unbundle
