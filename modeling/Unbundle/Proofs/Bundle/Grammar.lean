import Unbundle.Proofs.Bundle.Modules
import Unbundle.Proofs.Script.Grammar

/-!
The grammar of a call that registers a module. Main statements: exactly the calls with such arguments
are understood, and at each name in code the scan finds a module or an obstacle accordingly.
-/

namespace Unbundle.CallSite

open Script Ascii

/-- The elements of a list behind its bracket or a comma, up to its end. A comma may follow the last
element. -/
inductive Elements : Bytes → Bytes → Prop
  | none (rest : Bytes) : Elements (rightBracket :: rest) rest
  | last {text after rest : Bytes} (element : Quoted text after)
      (gap : Gaps after (rightBracket :: rest)) : Elements text rest
  | next {text after behind following rest : Bytes} (element : Quoted text after)
      (gap : Gaps after (comma :: behind)) (start : Gaps behind following)
      (onward : Elements following rest) : Elements text rest

/-- A list of dependencies and the comma behind it may stand in front of the factory. -/
inductive Dependencies : Bytes → Bytes → Prop
  | none (text : Bytes) : Dependencies text text
  | listed {inside first after behind rest : Bytes} (start : Gaps inside first)
      (elements : Elements first after) (gap : Gaps after (comma :: behind))
      (next : Gaps behind rest) : Dependencies (leftBracket :: inside) rest

/-- The factory, up to its bytes or the inside of its body. -/
inductive Factory : Bytes → Prop
  | compiled (rest : Bytes) : Factory (nul :: rest)
  | function {text rest : Bytes} (head : FunctionHead text rest) : Factory text

/-- What stands behind the parenthesis of a call that registers a module: a literal that names it,
its dependencies, and its factory. -/
inductive Arguments : Bytes → Prop
  | intro {text start after behind argument factory written : Bytes} (gap : Gaps text start)
      (literal : Quoted start after) (spells : Literal.quoted? start = some (written, after))
      (named : Path.canonical? written ≠ none) (next : Gaps after (comma :: behind))
      (onward : Gaps behind argument) (dependencies : Dependencies argument factory)
      (payload : Factory factory) : Arguments text

variable {text rest path : Bytes}

theorem nextArgument_eq_ok {missing : Defect} : nextArgument missing text = .ok rest ↔
    ∃ behind, Gaps text (comma :: behind) ∧ Gaps behind rest := by
  simp only [← expect?_gaps, @gaps_iff _ rest]
  rw [nextArgument]
  cases expect? comma (skipGaps text) with
  | none => simp
  | some behind => simp

theorem readList_element {element after : Bytes}
    (found : Literal.quoted? text = some (element, after)) :
    readList text =
      match skipGaps after with
      | [] => .error ⟨.unterminatedDependencies, []⟩
      | b :: behind =>
        if b = comma then
          (readList (skipGaps behind)).map fun (elements, past) => (element :: elements, past)
        else if b = rightBracket then .ok ([element], behind)
        else .error ⟨.malformedDependencies, b :: behind⟩ := by
  cases text with
  | nil => cases found
  | cons quote inside =>
    simp only [Literal.quoted?, Option.ite_none_right_eq_some] at found
    obtain ⟨quotes, literal⟩ := found
    have noBracket : quote ≠ rightBracket := by
      rintro rfl
      cases quotes
    rw [readList, if_neg noBracket, if_pos quotes]
    split
    · next unread => cases literal.symm.trans unread
    · next read =>
      cases literal.symm.trans read
      split <;> next start => rw [start]

/-- A list is empty, or has a literal at its front. -/
theorem readList_eq_ok {elements : List Bytes} : readList text = .ok (elements, rest) ↔
    (elements = [] ∧ text = rightBracket :: rest) ∨
      ∃ element others after, elements = element :: others ∧
        Literal.quoted? text = some (element, after) ∧
        (others = [] ∧ Gaps after (rightBracket :: rest) ∨
          ∃ behind next, Gaps after (comma :: behind) ∧ Gaps behind next ∧
            readList next = .ok (others, rest)) := by
  constructor
  · intro read
    fun_induction readList text with
    | case1 | case3 | case4 | case7 | case8 => cases read
    | case2 =>
      cases read
      exact .inl ⟨rfl, rfl⟩
    | case5 b inside noBracket quotes element after literal behind start _ =>
      obtain ⟨⟨others, past⟩, onward, same⟩ := map_eq_ok.mp read
      cases same
      exact .inr ⟨element, others, after, rfl, (if_pos quotes).trans literal,
        .inr ⟨behind, _, gaps_iff.mpr start, gaps_skipGaps behind, onward⟩⟩
    | case6 b inside noBracket quotes element after literal behind start differs =>
      cases read
      exact .inr ⟨element, [], after, rfl, (if_pos quotes).trans literal,
        .inl ⟨rfl, gaps_iff.mpr start⟩⟩
  · rintro (⟨rfl, rfl⟩ | ⟨element, others, after, rfl, literal, ⟨rfl, gap⟩ |
      ⟨behind, next, gap, start, onward⟩⟩)
    · rw [readList, if_pos rfl]
    · rw [readList_element literal, gap.skipGaps_eq]
      rfl
    · rw [readList_element literal, gap.skipGaps_eq]
      dsimp only
      rw [if_pos rfl, start.skipGaps_eq, onward]
      rfl

private theorem Elements.readList_ok (elements : Elements text rest) :
    ∃ found, readList text = .ok (found, rest) := by
  induction elements with
  | none rest => exact ⟨[], readList_eq_ok.mpr (.inl ⟨rfl, rfl⟩)⟩
  | last element gap =>
    obtain ⟨spelled, literal⟩ := quoted_iff.mp element
    exact ⟨[spelled], readList_eq_ok.mpr (.inr ⟨spelled, [], _, rfl, literal, .inl ⟨rfl, gap⟩⟩)⟩
  | next element gap start onward ih =>
    obtain ⟨spelled, literal⟩ := quoted_iff.mp element
    obtain ⟨others, read⟩ := ih
    exact ⟨spelled :: others, readList_eq_ok.mpr
      (.inr ⟨spelled, others, _, rfl, literal, .inr ⟨_, _, gap, start, read⟩⟩)⟩

private theorem elements_of_readList {found : List Bytes} (read : readList text = .ok (found, rest))
    :
    Elements text rest := by
  induction found generalizing text with
  | nil =>
    rcases readList_eq_ok.mp read with ⟨_, rfl⟩ | ⟨_, _, _, impossible, _⟩
    · exact .none rest
    · cases impossible
  | cons element others ih =>
    rcases readList_eq_ok.mp read with ⟨impossible, _⟩ | ⟨_, _, after, same, literal, rest⟩
    · cases impossible
    · cases same
      have quoted := quoted_iff.mpr ⟨element, literal⟩
      rcases rest with ⟨_, gap⟩ | ⟨behind, next, gap, start, onward⟩
      · exact .last quoted gap
      · exact .next quoted gap start (ih onward)

private theorem dependencies_of_readDependencies {listed : List Bytes}
    (read : readDependencies text = .ok (listed, rest)) : Dependencies text rest := by
  rw [readDependencies] at read
  cases opened : expect? leftBracket text with
  | none =>
    rw [opened] at read
    cases read
    exact .none text
  | some inside =>
    rw [opened] at read
    obtain ⟨⟨elements, after⟩, list, read⟩ := bind_eq_ok.mp read
    obtain ⟨factory, next, read⟩ := bind_eq_ok.mp read
    cases read
    obtain ⟨behind, gap, onward⟩ := nextArgument_eq_ok.mp next
    rw [expect?_eq_some opened]
    exact .listed (gaps_skipGaps inside) (elements_of_readList list) gap onward

theorem Factory.expect?_leftBracket (factory : Factory text) : expect? leftBracket text = none := by
  cases found : expect? leftBracket text with
  | none => rfl
  | some rest =>
    have start := expect?_eq_some found
    have word : Word.split text = ([], text) := by rw [start, Word.split_outside rfl]
    have keyword : [] ≠ utf8 "function" := by decide +kernel
    cases factory with
    | compiled => cases start
    | function head =>
      cases head with
      | keyword named => exact absurd (Prod.mk.inj (word.symm.trans named)).1 keyword
      | arrow parameters =>
        cases parameters with
        | list => cases start
        | name named => cases (Prod.mk.inj (word.symm.trans named)).1

private theorem Dependencies.readDependencies_ok (dependencies : Dependencies text rest)
    (factory : Factory rest) : ∃ listed, readDependencies text = .ok (listed, rest) := by
  cases dependencies with
  | none =>
    exact ⟨[], by rw [readDependencies, factory.expect?_leftBracket]⟩
  | listed start elements gap next =>
    obtain ⟨found, read⟩ := elements.readList_ok
    refine ⟨found, ?_⟩
    rw [readDependencies, expect?, if_pos rfl]
    dsimp only
    rw [start.skipGaps_eq]
    exact bind_eq_ok.mpr
      ⟨_, read, bind_eq_ok.mpr ⟨_, nextArgument_eq_ok.mpr ⟨_, gap, next⟩, rfl⟩⟩

private theorem factory_iff :
    Factory text ↔ ∃ payload past, readFactory text = .ok (payload, past) := by
  rw [readFactory]
  constructor
  · intro factory
    cases factory with
    | compiled rest => exact ⟨_, _, rfl⟩
    | function head =>
      rw [functionHead_iff.mp head]
      cases expect? nul text with
      | none => exact ⟨_, _, rfl⟩
      | some compiled => exact ⟨_, _, rfl⟩
  · rintro ⟨payload, past, read⟩
    cases compiled : expect? nul text with
    | some rest =>
      rw [expect?_eq_some compiled]
      exact .compiled rest
    | none =>
      rw [compiled] at read
      cases function : Script.Factory.read? text with
      | none =>
        rw [function] at read
        cases read
      | some body => exact .function (functionHead_iff.mpr function)

theorem arguments_iff : Arguments text ↔ ∃ record past, read text = .ok (record, past) := by
  constructor
  · rintro ⟨gap, literal, spells, named, next, onward, dependencies, factory⟩
    obtain ⟨path, canonical⟩ := Option.ne_none_iff_exists'.mp named
    obtain ⟨listed, list⟩ := dependencies.readDependencies_ok factory
    obtain ⟨payload, past, last⟩ := factory_iff.mp factory
    have first := readPath_eq_ok.mpr ⟨_, gap.skipGaps_eq.symm ▸ spells, canonical⟩
    exact ⟨toModule path listed payload, past, bind_eq_ok.mpr ⟨_, first,
      bind_eq_ok.mpr ⟨_, nextArgument_eq_ok.mpr ⟨_, next, onward⟩,
        bind_eq_ok.mpr ⟨_, list, bind_eq_ok.mpr ⟨_, last, rfl⟩⟩⟩⟩⟩
  · rintro ⟨record, past, found⟩
    obtain ⟨path, afterPath, argument, listed, factory, payload, named, next, list, last, -⟩ :=
      read_ok found
    obtain ⟨written, spells, canonical⟩ := readPath_eq_ok.mp named
    obtain ⟨behind, gap, onward⟩ := nextArgument_eq_ok.mp next
    exact .intro (gaps_skipGaps text) (quoted_iff.mpr ⟨written, spells⟩) spells
      (canonical ▸ Option.some_ne_none path) gap onward (dependencies_of_readDependencies list)
      (factory_iff.mpr ⟨payload, past, last⟩)

private theorem arguments_of_isOk (understood : (read text).isOk = true) : Arguments text := by
  cases found : read text with
  | ok pair => exact arguments_iff.mpr ⟨pair.1, pair.2, found⟩
  | error refusal =>
    rw [found] at understood
    cases understood

end Unbundle.CallSite

namespace Unbundle.Bundle

open Script Ascii

variable {names : List Bytes} {text name rest inside : Bytes} {found : List Item} {afterDot : Bool}
  {history : History}

/-- At each name with a parenthesis behind it that the scan comes to in code: behind a dot it finds
nothing, and elsewhere a call, which was understood exactly if the grammar says so. Behind such a call
the scan goes on behind its end, and behind every other one right behind the name. -/
theorem names_recognized
    (reached : (visitor text.length names).Walks ⟨false, {}, text⟩ found
      ⟨afterDot, history, name ++ rest⟩)
    (word : Piece.read? history.divides (name ++ rest) = some (.word name rest))
    (named : name ∈ names) (opened : Gaps rest (leftParen :: inside)) :
    let start := text.length - (name ++ rest).length
    let onward := (visitor text.length names).walk false
    (afterDot = true → scan names text = found ++ onward (history.word name) rest) ∧
    (afterDot = false →
      (CallSite.Arguments inside → ∃ record past, past <:+ inside ∧
        scan names text = found ++
          .site start (text.length - past.length) record :: onward history.operand past) ∧
      (¬CallSite.Arguments inside → ∃ finish defect,
        scan names text = found ++
          .unrecognized start finish defect :: onward (history.word name) rest)) := by
  have scanned : scan names text = found ++
      (visitor text.length names).walk afterDot history (name ++ rest) := reached.walkFrom_eq
  rw [Visitor.walk_word _ word] at scanned
  refine ⟨?_, ?_⟩
  · rintro rfl
    exact scanned
  · rintro rfl
    rw [visit_name _ named (expect?_gaps.mpr opened), ← List.length_append] at scanned
    rw [CallSite.arguments_iff]
    refine ⟨?_, fun refused => ?_⟩
    · rintro ⟨record, past, read⟩
      rw [read] at scanned
      exact ⟨record, past, CallSite.read_suffix read, scanned⟩
    · cases read : CallSite.read inside with
      | ok pair => exact absurd ⟨pair.1, pair.2, read⟩ refused
      | error refusal =>
        rw [read] at scanned
        exact ⟨_, _, scanned⟩

/-- A call with a comma behind its last dependency and an arrow function is understood. -/
theorem names_recognized_sample :
    let text := utf8 "define /* */ ('m', ['./a',], x => \x7b\x7d)"
    let rest := text.drop 6
    let inside := text.drop 14
    (visitor text.length [utf8 "define"]).Walks ⟨false, {}, text⟩ []
        ⟨false, {}, utf8 "define" ++ rest⟩ ∧
      Piece.read? ({} : History).divides (utf8 "define" ++ rest) =
        some (.word (utf8 "define") rest) ∧
      utf8 "define" ∈ [utf8 "define"] ∧ Gaps rest (leftParen :: inside) ∧
      CallSite.Arguments inside ∧
      ∃ finish record later, scan [utf8 "define"] text = .site 0 finish record :: later := by
  intro text rest inside
  have same : text = utf8 "define" ++ rest := by decide +kernel
  have reached : (visitor text.length [utf8 "define"]).Walks ⟨false, {}, text⟩ []
      ⟨false, {}, utf8 "define" ++ rest⟩ := same ▸ .refl _
  have word : Piece.read? ({} : History).divides (utf8 "define" ++ rest) =
      some (.word (utf8 "define") rest) := by decide +kernel
  have named : utf8 "define" ∈ [utf8 "define"] := List.mem_singleton_self _
  have opened : Gaps rest (leftParen :: inside) := gaps_iff.mpr (by decide +kernel)
  have understood : CallSite.Arguments inside := CallSite.arguments_of_isOk (by decide +kernel)
  have start : text.length - (utf8 "define" ++ rest).length = 0 := by rw [← same, Nat.sub_self]
  obtain ⟨record, past, _, scanned⟩ :=
    ((names_recognized reached word named opened).2 rfl).1 understood
  rw [start] at scanned
  exact ⟨reached, word, named, opened, understood, _, _, _, scanned⟩

/-- A name behind a literal is missed if a dot stands in front of the literal. -/
theorem names_missed :
    let text := utf8 "1.\n's'\ndefine('m',function()\x7b\x7d)"
    text.take 7 = utf8 "1.\n's'\n" ∧
      (∃ history, (visitor text.length [utf8 "define"]).Walks ⟨false, {}, text⟩ []
          ⟨true, history, text.drop 7⟩ ∧
        Piece.read? history.divides (text.drop 7) =
          some (.word (utf8 "define") (text.drop 13))) ∧
      Gaps (text.drop 13) (leftParen :: text.drop 14) ∧
      CallSite.Arguments (text.drop 14) ∧ scan [utf8 "define"] text = [] := by
  intro text
  let number := ({} : History).word (utf8 "1")
  have one : Piece.read? ({} : History).divides text = some (.word (utf8 "1") (text.drop 1)) := by
    decide +kernel
  have point : Piece.read? number.divides (text.drop 1) = some (.mark dot (text.drop 2)) := by
    decide +kernel
  have line (divides : Bool) : Piece.read? divides (text.drop 2) = some (.gap (text.drop 3)) := rfl
  have quoted (divides : Bool) :
      Piece.read? divides (text.drop 3) = some (.literal (text.drop 6)) := by
    cases divides <;> decide +kernel
  have next (divides : Bool) : Piece.read? divides (text.drop 6) = some (.gap (text.drop 7)) := rfl
  have reached : (visitor text.length [utf8 "define"]).Walks ⟨false, {}, text⟩ []
      ⟨true, (number.mark dot).operand, text.drop 7⟩ :=
    .step (.word one (by decide +kernel)) <| .step (.piece point nofun nofun) <|
      .step (.piece (line _) nofun nofun) <| .step (.piece (quoted _) nofun nofun) <|
        .step (.piece (next _) nofun nofun) (.refl _)
  exact ⟨by decide +kernel, ⟨_, reached, by decide +kernel⟩, gaps_iff.mpr (by decide +kernel),
    CallSite.arguments_of_isOk (by decide +kernel), by decide +kernel⟩

end Unbundle.Bundle
