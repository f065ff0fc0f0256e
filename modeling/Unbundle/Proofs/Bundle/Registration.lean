import Unbundle.Proofs.Bundle.Grammar

namespace Unbundle.Registration

open Script Ascii

/-- A byte of a literal: the quote, the backslash and the line break are escaped. -/
def spell (b : UInt8) : Bytes :=
  if b = doubleQuote ∨ b = backslash then [backslash, b]
  else if b = newline then [backslash, 0x6E]
  else [b]

def quote (text : Bytes) : Bytes := doubleQuote :: (text.flatMap spell ++ [doubleQuote])

/-- What a registered module consists of. -/
inductive Code where
  | source (body : Bytes)
  | compiled (body : Bytes)
  deriving DecidableEq, Repr

namespace Code

def body : Code → Bytes
  | source body | compiled body => body

def form : Code → Form
  | source _ => .source
  | compiled _ => .bytecode

/-- The specifiers that the code itself requires. -/
def required : Code → List Bytes
  | source body => requires body
  | compiled _ => []

/-- A source stands between the braces of a function, compiled bytes behind their length. -/
def render : Code → Bytes
  | source body => utf8 "function()" ++ leftBrace :: body ++ [rightBrace]
  | compiled body => nul :: Word32.encode body.length ++ body

/-- A source must be balanced, and the length of compiled bytes must fit its word. -/
def Valid : Code → Prop
  | source body => matchingBrace? (leftBrace :: body ++ [rightBrace]) 0 = some (body.length + 1)
  | compiled body => body.length < Word32.size

instance : DecidablePred Valid
  | source _ => inferInstanceAs (Decidable (_ = _))
  | compiled _ => inferInstanceAs (Decidable (_ < _))

end Code

/-- The list of dependencies with the comma before the factory, if there is one. -/
def renderDependencies : Option (List Bytes) → Bytes
  | none => []
  | some elements => leftBracket :: [comma].intercalate (elements.map quote) ++ utf8 "], "

/-- A call that registers a module, or one that names just a variable. -/
inductive Call where
  | register (name path : Bytes) (dependencies : Option (List Bytes)) (code : Code)
  | other (name argument : Bytes)
  deriving DecidableEq, Repr

/-- A name of ASCII letters, digits, underscores and dollar signs. -/
def IsName (text : Bytes) : Prop :=
  text ≠ [] ∧ ∀ b ∈ text, isLetter b ∨ isDigit b ∨ b = underscore ∨ b = dollar

instance (text : Bytes) : Decidable (IsName text) := inferInstanceAs (Decidable (_ ∧ _))

namespace Call

def name : Call → Bytes
  | register name .. | other name _ => name

def render : Call → Bytes
  | register name path dependencies code =>
    name ++ leftParen :: quote path ++ utf8 ", " ++ renderDependencies dependencies ++
      code.render ++ utf8 ");\n"
  | other name argument => name ++ leftParen :: argument ++ utf8 ");\n"

/-- The module that a call registers. -/
def module? : Call → Option ScriptModule
  | register _ path dependencies code =>
    (Path.canonical? path).map fun path =>
      { path
        dependencies :=
          .ofList ((dependencies.getD [] ++ code.required).map (Specifier.resolve path))
        body := code.body
        form := code.form
        truncated := false }
  | other .. => none

/-- Why a call registers nothing. -/
def defect? : Call → Option CallSite.Defect
  | register .. => none
  | other .. => some .pathNotLiteral

/-- A call is valid under the names of registrations if it bears one of them, its path names
something, and its code can be told from the text behind it. -/
def Valid (names : List Bytes) : Call → Prop
  | register name path _ code => name ∈ names ∧ Path.canonical? path ≠ none ∧ code.Valid
  | other name argument => name ∈ names ∧ IsName argument

instance (names : List Bytes) : DecidablePred (Valid names)
  | register .. => inferInstanceAs (Decidable (_ ∧ _ ∧ _))
  | other .. => inferInstanceAs (Decidable (_ ∧ _))

theorem name_mem {names : List Bytes} {call : Call} (valid : call.Valid names) :
    call.name ∈ names := by
  cases call <;> exact valid.1

end Call

def render (calls : List Call) : Bytes := calls.flatMap Call.render

private theorem read?_spell (text rest : Bytes) :
    Literal.read? doubleQuote (text.flatMap spell ++ doubleQuote :: rest) = some (text, rest) := by
  induction text with
  | nil => rw [List.flatMap_nil, List.nil_append, Literal.read?_cons (by decide), if_pos rfl]
  | cons b text ih =>
    have escaped {letter : UInt8} (plain : ∀ tail, Literal.escape letter tail = ([b], tail)) :
        Literal.read? doubleQuote (backslash :: letter ::
          (text.flatMap spell ++ doubleQuote :: rest)) = some (b :: text, rest) := by
      rw [Literal.read?_escape (by decide), plain, ih]
      rfl
    rw [List.flatMap_cons, List.append_assoc]
    by_cases special : b = doubleQuote ∨ b = backslash
    · rw [spell, if_pos special]
      apply escaped
      rcases special with rfl | rfl <;> exact fun _ => rfl
    · rw [spell, if_neg special]
      by_cases breaks : b = newline
      · subst breaks
        exact escaped fun _ => rfl
      · obtain ⟨noQuote, noBackslash⟩ := not_or.mp special
        rw [if_neg breaks, List.singleton_append, Literal.read?_cons noBackslash, if_neg noQuote,
          if_neg breaks, ih]
        rfl

private theorem quoted?_quote (text rest : Bytes) :
    Literal.quoted? (quote text ++ rest) = some (text, rest) := by
  have written : quote text ++ rest =
      doubleQuote :: (text.flatMap spell ++ doubleQuote :: rest) := by simp [quote]
  rw [written, Literal.quoted?, if_pos (by decide), read?_spell]

private theorem readPath_quote {written path : Bytes}
    (canonical : Path.canonical? written = some path)
    (rest : Bytes) : CallSite.readPath (quote written ++ rest) = .ok (path, rest) := by
  have start : skipGaps (quote written ++ rest) = quote written ++ rest := skipGaps_cons rfl _
  exact CallSite.readPath_eq_ok.mpr ⟨written, start.symm ▸ quoted?_quote written rest, canonical⟩

private theorem nextArgument_comma (missing : CallSite.Defect) (rest : Bytes) :
    CallSite.nextArgument missing (comma :: space :: rest) = .ok (skipGaps rest) := by
  simp [CallSite.nextArgument, skipGaps_cons (b := comma) rfl, expect?,
    skipGaps_space]

private theorem readList_quotes (elements : List Bytes) (rest : Bytes) :
    CallSite.readList (skipGaps ([comma].intercalate (elements.map quote) ++ rightBracket :: rest)) =
      .ok (elements, rest) := by
  have start (element tail : Bytes) : skipGaps (quote element ++ tail) = quote element ++ tail :=
    skipGaps_cons rfl _
  induction elements with
  | nil =>
    rw [List.map_nil, List.intercalate_nil, List.nil_append, skipGaps_cons rfl]
    exact CallSite.readList_eq_ok.mpr (.inl ⟨rfl, rfl⟩)
  | cons element elements ih =>
    cases elements with
    | nil =>
      have next : skipGaps (rightBracket :: rest) = rightBracket :: rest :=
        skipGaps_cons rfl rest
      rw [List.map_singleton, List.intercalate_singleton, start]
      exact CallSite.readList_eq_ok.mpr (.inr ⟨element, [], _, rfl, quoted?_quote element _,
        .inl ⟨rfl, gaps_iff.mpr next⟩⟩)
    | cons second elements =>
      have next (tail : Bytes) : skipGaps (comma :: tail) = comma :: tail := skipGaps_cons rfl tail
      rw [List.map_cons, List.map_cons, List.intercalate_cons_cons, ← List.map_cons,
        List.append_assoc, List.append_assoc, start, List.singleton_append]
      exact CallSite.readList_eq_ok.mpr (.inr ⟨element, second :: elements, _, rfl,
        quoted?_quote element _, .inr ⟨_, _, gaps_iff.mpr (next _), gaps_skipGaps _, ih⟩⟩)

private theorem readDependencies_render (dependencies : Option (List Bytes)) {b : UInt8}
    (solid : startsGap b = false) (noBracket : b ≠ leftBracket) (rest : Bytes) :
    CallSite.readDependencies (renderDependencies dependencies ++ b :: rest) =
      .ok (dependencies.getD [], b :: rest) := by
  cases dependencies with
  | none => simp [renderDependencies, CallSite.readDependencies, expect?, noBracket]
  | some elements =>
    have text : renderDependencies (some elements) ++ b :: rest = leftBracket ::
        ([comma].intercalate (elements.map quote) ++ rightBracket :: comma :: space :: b :: rest) := by
      rw [renderDependencies, show utf8 "], " = [rightBracket, comma, space] from rfl]
      simp
    rw [text]
    simp [CallSite.readDependencies, expect?, readList_quotes, nextArgument_comma,
      skipGaps_cons solid, bind, Except.bind]

theorem IsName.part {name : Bytes} (valid : IsName name) {b : UInt8} (member : b ∈ name) :
    Word.isPart b = true ∧ startsGap b = false ∧ isQuote b = false := by
  have plain := valid.2 b member
  refine ⟨?_, ?_⟩
  · rcases plain with letter | digit | rfl | rfl
    · simp [Word.isPart, Word.isStart, letter]
    · simp [Word.isPart, digit]
    · rfl
    · rfl
  · have apart : ∀ c ∈ blankStarts ++ [slash, doubleQuote, singleQuote],
        ¬(isLetter c ∨ isDigit c ∨ c = underscore ∨ c = dollar) := by decide +kernel
    have fresh : b ∉ blankStarts ++ [slash, doubleQuote, singleQuote] :=
      fun among => apart b among plain
    simp only [List.mem_append, List.mem_cons, List.not_mem_nil, or_false, not_or] at fresh
    exact ⟨by simp [startsGap, fresh], by simp [isQuote, fresh]⟩

theorem IsName.isWord {name : Bytes} (valid : IsName name) : Word.IsWord name := by
  have parts : ∀ b ∈ name, Word.isPart b = true ∧ startsGap b = false :=
    fun b member => ⟨(valid.part member).1, (valid.part member).2.1⟩
  refine ⟨valid.1, ?_⟩
  clear valid
  induction name with
  | nil => rfl
  | cons b name ih =>
    obtain ⟨part, start⟩ := parts b (List.mem_cons_self ..)
    have solid : isBlank (b :: name) = false := by rw [isBlank, blank?_cons start]; rfl
    rw [Word.split_part part solid, ih fun c member => parts c (List.mem_cons_of_mem _ member)]

private theorem read?_function (rest : Bytes) :
    Factory.read? (utf8 "function()" ++ leftBrace :: rest) = some rest := by
  have parameters : Factory.parameters? (leftParen :: rightParen :: leftBrace :: rest) =
      some (leftBrace :: rest) := by
    have close : Piece.read? ({} : History).openParen.divides (rightParen :: leftBrace :: rest) =
        some (.mark rightParen (leftBrace :: rest)) :=
      Piece.read?_mark rfl _ _
    exact closeParens_mark close (by decide)
  have body : Factory.body? (leftBrace :: rest) = some rest := by
    simp [Factory.body?, skipGaps_cons (b := leftBrace) rfl, expect?]
  have word : Word.split (utf8 "function()" ++ leftBrace :: rest) =
      (utf8 "function", leftParen :: rightParen :: leftBrace :: rest) :=
    (show Word.IsWord (utf8 "function") by decide).split_cons rfl _
  have gaps (tail : Bytes) : skipGaps (leftParen :: tail) = leftParen :: tail :=
    skipGaps_cons rfl tail
  have noWord (tail : Bytes) : Word.split (leftParen :: tail) = ([], leftParen :: tail) := by
    simp +decide [Word.split]
  simp +decide [Factory.read?, word, Factory.named?, gaps, expect?, noWord, parameters, body]

private theorem closeCall_end (rest : Bytes) :
    CallSite.closeCall (utf8 ");\n" ++ rest) = utf8 ";\n" ++ rest := by
  have gaps : skipGaps (utf8 ");\n" ++ rest) = rightParen :: (utf8 ";\n" ++ rest) :=
    skipGaps_cons rfl _
  simp [CallSite.closeCall, gaps, expect?]

theorem closeFrame_source {body : Bytes} (valid : (Code.source body).Valid) {rest : Bytes}
    (inert : Inert rest) : closeFrame .start [] (body ++ rightBrace :: rest) = some rest := by
  obtain ⟨code, closer, _, same, again⟩ := closeFrame_local (closeFrame_of_matchingBrace? valid)
  obtain ⟨rfl, last⟩ := List.append_inj' same rfl
  cases last
  exact again rest (inert.tame _)

private theorem readFactory_function (source : Bytes) :
    CallSite.readFactory (utf8 "function()" ++ leftBrace :: source) =
      .ok (CallSite.readSource source) := by
  have noNul : expect? nul (utf8 "function()" ++ leftBrace :: source) = none := rfl
  rw [CallSite.readFactory, noNul, read?_function]

private theorem readFactory_render {code : Code} (valid : code.Valid) (rest : Bytes) :
    CallSite.readFactory (code.render ++ (utf8 ");\n" ++ rest)) =
      .ok (⟨code.form, code.body, false⟩, utf8 ";\n" ++ rest) := by
  have closed := closeCall_end rest
  cases code with
  | source body =>
    have inert : Inert ([rightParen, 0x3B] ++ newline :: rest) :=
      inert_append (by decide +kernel) (inert_of_lineBreak (.inl rfl) rest)
    change Inert (utf8 ");\n" ++ rest) at inert
    have text : (Code.source body).render ++ (utf8 ");\n" ++ rest) =
        utf8 "function()" ++ leftBrace :: (body ++ rightBrace :: (utf8 ");\n" ++ rest)) := by
      simp [Code.render]
    rw [text, readFactory_function]
    generalize utf8 ");\n" ++ rest = after at inert closed ⊢
    have length : (body ++ rightBrace :: after).length - after.length - 1 = body.length := by
      rw [List.length_append, List.length_cons]; omega
    simp only [CallSite.readSource, closeFrame_source valid inert, length, List.take_left, closed]
    rfl
  | compiled body =>
    have text : (Code.compiled body).render ++ (utf8 ");\n" ++ rest) =
        nul :: (Word32.encode body.length ++ (body ++ (utf8 ");\n" ++ rest))) := by
      simp [Code.render]
    have length : body.length % Word32.size = body.length := Nat.mod_eq_of_lt valid
    rw [text, CallSite.readFactory, expect?, if_pos rfl]
    have bytes : (Word32.encode body.length ++ (body ++ (utf8 ");\n" ++ rest))).drop 4 =
        body ++ (utf8 ");\n" ++ rest) := rfl
    have enough : ¬(body ++ (utf8 ");\n" ++ rest)).length < body.length := by
      rw [List.length_append]; omega
    simp only [CallSite.readCompiled, Word32.read?_encode_append, length, bytes, enough, if_false,
      List.take_left, List.drop_left, closed]
    rfl

theorem read_arguments {written path : Bytes} (canonical : Path.canonical? written = some path)
    (dependencies : Option (List Bytes)) {b : UInt8} (solid : startsGap b = false)
    (noBracket : b ≠ leftBracket) (tail : Bytes) :
    CallSite.read (quote written ++ utf8 ", " ++ renderDependencies dependencies ++ b :: tail) =
      (CallSite.readFactory (b :: tail)).map fun (payload, past) =>
        (CallSite.toModule path (dependencies.getD []) payload, past) := by
  have slot : skipGaps (renderDependencies dependencies ++ b :: tail) =
      renderDependencies dependencies ++ b :: tail := by
    cases dependencies with
    | none => exact skipGaps_cons solid tail
    | some elements => exact skipGaps_cons rfl _
  have text : quote written ++ utf8 ", " ++ renderDependencies dependencies ++ b :: tail =
      quote written ++ comma :: space :: (renderDependencies dependencies ++ b :: tail) := by
    rw [show utf8 ", " = [comma, space] from rfl]
    simp
  rw [text, CallSite.read, readPath_quote canonical]
  simp only [bind, Except.bind, nextArgument_comma, slot,
    readDependencies_render dependencies solid noBracket]
  cases CallSite.readFactory (b :: tail) <;> rfl

/-- The arguments of a registration are understood, and its module is read. -/
theorem read_register {written path : Bytes} (canonical : Path.canonical? written = some path)
    (dependencies : Option (List Bytes)) {code : Code} (valid : code.Valid) (rest : Bytes) :
    CallSite.read (quote written ++ utf8 ", " ++ renderDependencies dependencies ++ code.render ++
        utf8 ");\n" ++ rest) =
      .ok ({ path
             dependencies :=
               .ofList ((dependencies.getD [] ++ code.required).map (Specifier.resolve path))
             body := code.body
             form := code.form
             truncated := false }, utf8 ";\n" ++ rest) := by
  -- A factory never looks like a gap nor like a list, so the arguments before it end where they
  -- should.
  obtain ⟨b, tail, factory, solid, noBracket⟩ : ∃ b tail,
      code.render ++ (utf8 ");\n" ++ rest) = b :: tail ∧ startsGap b = false ∧
        b ≠ leftBracket := by
    cases code with
    | source body => exact ⟨0x66, _, rfl, rfl, by decide⟩
    | compiled body => exact ⟨nul, _, rfl, rfl, by decide⟩
  rw [List.append_assoc, List.append_assoc, factory,
    read_arguments canonical dependencies solid noBracket, ← factory, readFactory_render valid]
  cases code <;> rfl

/-- The body of a function is read as far as the text goes. -/
theorem read_source {written path : Bytes} (canonical : Path.canonical? written = some path)
    (dependencies : Option (List Bytes)) (source : Bytes) :
    CallSite.read (quote written ++ utf8 ", " ++ renderDependencies dependencies ++
        (utf8 "function()" ++ leftBrace :: source)) =
      .ok (CallSite.toModule path (dependencies.getD []) (CallSite.readSource source).1,
        (CallSite.readSource source).2) := by
  have text : utf8 "function()" ++ leftBrace :: source =
      0x66 :: (utf8 "unction()" ++ leftBrace :: source) := rfl
  rw [text, read_arguments canonical dependencies rfl (by decide), ← text, readFactory_function]
  rfl

theorem read_variable {argument : Bytes} (valid : IsName argument) (rest : Bytes) :
    CallSite.read (argument ++ rest) = .error ⟨.pathNotLiteral, argument ++ rest⟩ := by
  cases argument with
  | nil => exact absurd rfl valid.1
  | cons b argument =>
    obtain ⟨_, solid, noQuote⟩ := valid.part (List.mem_cons_self ..)
    rw [List.cons_append, CallSite.read, CallSite.readPath, skipGaps_cons solid]
    simp [noQuote, bind, Except.bind]

end Unbundle.Registration
