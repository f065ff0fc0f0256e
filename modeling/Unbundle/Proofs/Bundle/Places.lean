import Unbundle.Bundle.Scan
import Unbundle.Proofs.Script.Literals
import Unbundle.Proofs.Script.Walk

/-!
Scanning a bundle by place. Main statement: the scan neither reads outside the bundle, nor takes a
part from behind its end, nor goes on for ever, and finds what scanning from the front finds.
-/

namespace Unbundle.Script.Guarded

open Ascii CallSite

/-- A call is refused with the place up to which it was read. -/
abbrev Reading := ExceptT (Defect × Nat) Guarded

/-- What reading from the front says, by place. -/
def answered {α β : Type} (text : Bytes) (locate : α → β) (answer : Except Refusal α) :
    Reading β :=
  ExceptT.mk (some ((answer.mapError fun refusal =>
    (refusal.defect, placeOf text refusal.rest)).map locate))

section

variable {α β γ : Type} {text : Bytes} {locate : β → γ}

@[simp]
theorem answered_ok (found : β) : answered text locate (.ok found) = pure (locate found) := by
  rw [answered]
  rfl

@[simp]
theorem answered_error (refusal : Refusal) :
    answered text locate (.error refusal) =
      throw (refusal.defect, placeOf text refusal.rest) := by
  rw [answered]
  rfl

@[simp]
theorem answered_ok_bind (found : α) (next : α → Except Refusal β) :
    answered text locate (Except.ok found >>= next) = answered text locate (next found) := by
  rw [answered]
  rfl

@[simp]
theorem answered_error_bind (refusal : Refusal) (next : α → Except Refusal β) :
    answered text locate (Except.error refusal >>= next) =
      throw (refusal.defect, placeOf text refusal.rest) := by
  rw [answered]
  rfl

@[simp]
theorem read_some (a : α) : (liftM (some a : Guarded α) : Reading α) = pure a := rfl

end

variable {text rest : Bytes}

/-! ### Dependencies of a source -/

def readQuoted (text : Bytes) (place : Nat) : OptionT Guarded (Bytes × Nat) := do
  if place < text.length then
    let b ← byte text place
    if isQuote b then readLiteral text b (place + 1) else failure
  else failure

private theorem readQuoted_eq (inside : rest <:+ text) :
    readQuoted text (placeOf text rest) =
      searched ((Literal.quoted? rest).map (located text)) := by
  cases rest with
  | nil =>
    rw [readQuoted, if_neg (not_placeOf_nil_lt text)]
    rfl
  | cons b rest =>
    rw [readQuoted, if_pos (placeOf_lt inside), byte_eq inside, lift_some, pure_bind,
      placeOf_cons inside, readLiteral_eq (suffix_of_cons inside)]
    by_cases quote : isQuote b = true <;> simp [Literal.quoted?, quote]

/-- The specifier of a call with one literal argument, and the place after the call. -/
def readArgument (text : Bytes) (place : Nat) : OptionT Guarded (Bytes × Nat) := do
  let inside ← expect text leftParen (← skipGaps text place)
  let (specifier, after) ← readQuoted text (← skipGaps text inside)
  let past ← expect text rightParen (← skipGaps text after)
  return (specifier, past)

private theorem readArgument_eq (inside : rest <:+ text) :
    readArgument text (placeOf text rest) =
      searched ((Require.argument? rest).map (located text)) := by
  have start := (skipGaps_suffix rest).trans inside
  rw [readArgument, Require.argument?, skipGaps_eq inside, lift_some, pure_bind, expect_eq start]
  cases opened : expect? leftParen (Script.skipGaps rest) with
  | none => rfl
  | some list =>
    have behind := (expect?_suffix opened).trans start
    have first := (skipGaps_suffix list).trans behind
    simp only [Option.map_some, searched_some, pure_bind, skipGaps_eq behind, lift_some,
      readQuoted_eq first, Option.bind_eq_bind, Option.bind_some]
    cases quoted : Literal.quoted? (Script.skipGaps list) with
    | none => rfl
    | some pair =>
      have after := (Literal.quoted?_suffix quoted).trans first
      have last := (skipGaps_suffix pair.2).trans after
      simp only [Option.map_some, searched_some, pure_bind, located, skipGaps_eq after, lift_some,
        expect_eq last, Option.bind_some]
      cases expect? rightParen (Script.skipGaps pair.2) <;> rfl

def visitRequire (text : Bytes) (afterDot : Bool) (start finish : Nat) :
    Guarded (List Bytes × Option Nat) := do
  if afterDot then return ([], none)
  else
    let word ← part text start finish
    if word ≠ utf8 "require" then return ([], none)
    else
      match ← (readArgument text finish).run with
      | none => return ([], none)
      | some (specifier, past) => return (if specifier = [] then [] else [specifier], some past)

private theorem visitRequire_eq {word : Bytes} (afterDot : Bool) (inside : word ++ rest <:+ text) :
    visitRequire text afterDot (placeOf text (word ++ rest)) (placeOf text rest) =
      some ((Require.visitor.visit afterDot word rest).found,
        (Require.visitor.visit afterDot word rest).past.map (placeOf text)) := by
  have behind := (List.suffix_append word rest).trans inside
  rw [visitRequire, part_eq inside rfl, readArgument_eq behind]
  cases afterDot with
  | true => simp [Require.visitor]
  | false =>
    by_cases require : word = utf8 "require"
    · cases argument : Require.argument? rest <;>
        simp [Require.visitor, require, argument, located]
    · simp [Require.visitor, require]

/-- The specifiers that a source requires. -/
def requires (source : Bytes) : Guarded (List Bytes) :=
  walk source (visitRequire source) false {} 0

private theorem requires_eq (source : Bytes) :
    requires source = some (Unbundle.requires source) := by
  have walked : walk source (visitRequire source) false {} (placeOf source source) =
      some (Require.visitor.walk false {} source) :=
    walk_eq (fun afterDot word rest => visitRequire_eq afterDot) (List.suffix_refl source)
  rwa [placeOf_self] at walked

/-! ### Calls -/

def readPath (text : Bytes) (place : Nat) : Reading (Bytes × Nat) := do
  let start ← skipGaps text place
  if start < text.length then
    let b ← byte text start
    if isQuote b then
      match ← (readLiteral text b (start + 1)).run with
      | none => throw (.unterminatedPath, text.length)
      | some (written, past) =>
        match Path.canonical? written with
        | none => throw (.unusablePath written, past)
        | some path => return (path, past)
    else throw (.pathNotLiteral, start)
  else throw (.pathNotLiteral, start)

private theorem readPath_eq (inside : rest <:+ text) :
    readPath text (placeOf text rest) =
      answered text (located text) (CallSite.readPath rest) := by
  have start := (skipGaps_suffix rest).trans inside
  rw [readPath, CallSite.readPath, skipGaps_eq inside, read_some, pure_bind]
  cases begin : Script.skipGaps rest with
  | nil =>
    rw [if_neg (not_placeOf_nil_lt text)]
    rfl
  | cons b rest =>
    rw [begin] at start
    rw [if_pos (placeOf_lt start), byte_eq start, read_some, pure_bind, placeOf_cons start,
      readLiteral_eq (suffix_of_cons start)]
    by_cases quote : isQuote b = true
    · cases literal : Literal.read? b rest with
      | none => simp [quote, literal, placeOf_nil]
      | some pair =>
        cases canonical : Path.canonical? pair.1 <;> simp [quote, literal, located, canonical]
    · simp [quote]

def nextArgument (missing : Defect) (text : Bytes) (place : Nat) : Reading Nat := do
  let start ← skipGaps text place
  if ← sees text comma start then return ← skipGaps text (start + 1) else throw (missing, start)

private theorem nextArgument_eq (missing : Defect) (inside : rest <:+ text) :
    nextArgument missing text (placeOf text rest) =
      answered text (placeOf text) (CallSite.nextArgument missing rest) := by
  have start := (skipGaps_suffix rest).trans inside
  rw [nextArgument, CallSite.nextArgument, skipGaps_eq inside, read_some, pure_bind,
    sees_eq start, read_some, pure_bind]
  cases begin : Script.skipGaps rest with
  | nil => simp [expect?]
  | cons b rest =>
    rw [begin] at start
    rw [placeOf_cons start, skipGaps_eq (suffix_of_cons start)]
    by_cases separates : b = comma <;> simp [expect?, separates]

def readList (text : Bytes) (place : Nat) : Reading (List Bytes × Nat) :=
  letI again : Bytes → Nat → Reading (List Bytes × Nat) := by exact readList
  do
  if place < text.length then
    let b ← byte text place
    if b = rightBracket then return ([], place + 1)
    else if isQuote b then
      match ← (readLiteral text b (place + 1)).run with
      | none => throw (.unterminatedDependency, text.length)
      | some (element, past) =>
        let next ← skipGaps text past
        if next < text.length then
          let c ← byte text next
          if c = comma then
            let (elements, finish) ← again text (← skipGaps text (next + 1))
            return (element :: elements, finish)
          else if c = rightBracket then return ([element], next + 1)
          else throw (.malformedDependencies, next)
        else throw (.unterminatedDependencies, text.length)
    else throw (.dependencyNotLiteral, place)
  else throw (.unterminatedDependencies, text.length)
partial_fixpoint

private theorem readList_step {b : UInt8} (inside : b :: rest <:+ text) :
    readList text (placeOf text (b :: rest)) =
      if b = rightBracket then pure ([], placeOf text rest)
      else if isQuote b then
        match Literal.read? b rest with
        | none => throw (.unterminatedDependency, text.length)
        | some (element, after) =>
          match Script.skipGaps after with
          | [] => throw (.unterminatedDependencies, text.length)
          | c :: tail =>
            if c = comma then do
              let (elements, finish) ← readList text (placeOf text (Script.skipGaps tail))
              return (element :: elements, finish)
            else if c = rightBracket then pure ([element], placeOf text tail)
            else throw (.malformedDependencies, placeOf text (c :: tail))
      else throw (.dependencyNotLiteral, placeOf text (b :: rest)) := by
  have behind := suffix_of_cons inside
  rw [readList, if_pos (placeOf_lt inside), byte_eq inside, read_some, pure_bind,
    placeOf_cons inside, readLiteral_eq behind]
  cases literal : Literal.read? b rest with
  | none => simp
  | some pair =>
    obtain ⟨element, after⟩ := pair
    have past := (Literal.read?_suffix literal).trans behind
    have next := (skipGaps_suffix after).trans past
    cases start : Script.skipGaps after with
    | nil => simp [located, skipGaps_eq past, start, placeOf_nil]
    | cons c tail =>
      rw [start] at next
      simp [located, skipGaps_eq past, start, placeOf_lt next, byte_eq next, placeOf_cons next,
        skipGaps_eq (suffix_of_cons next)]

theorem readList_eq (inside : rest <:+ text) :
    readList text (placeOf text rest) = answered text (located text) (CallSite.readList rest) := by
  fun_induction CallSite.readList rest with
  | case1 =>
    rw [readList, if_neg (not_placeOf_nil_lt text)]
    rfl
  | case2 => simp [readList_step inside, located]
  | case3 => simp [readList_step inside, placeOf_nil, *]
  | case4 => simp [readList_step inside, placeOf_nil, *]
  | case5 b rest opens quote element after literal tail next ih =>
    have past := (Literal.read?_suffix literal).trans (suffix_of_cons inside)
    have separated : comma :: tail <:+ text := next ▸ (skipGaps_suffix after).trans past
    have onward := ih ((skipGaps_suffix tail).trans (suffix_of_cons separated))
    cases more : CallSite.readList (Script.skipGaps tail) <;>
      simp [readList_step inside, opens, quote, literal, next, onward, more, Except.map, located]
  | case6 => simp [readList_step inside, located, *]
  | case7 => simp [readList_step inside, *]
  | case8 => simp [readList_step inside, *]

def readDependencies (text : Bytes) (place : Nat) : Reading (List Bytes × Nat) := do
  if ← sees text leftBracket place then
    let (elements, past) ← readList text (← skipGaps text (place + 1))
    let next ← nextArgument .noFactoryAfterDependencies text past
    return (elements, next)
  else return ([], place)

private theorem readDependencies_eq (inside : rest <:+ text) :
    readDependencies text (placeOf text rest) =
      answered text (located text) (CallSite.readDependencies rest) := by
  rw [readDependencies, CallSite.readDependencies, sees_eq inside, read_some, pure_bind]
  cases rest with
  | nil => simp [expect?, located]
  | cons b rest =>
    by_cases list : b = leftBracket
    · have behind := suffix_of_cons inside
      have first := (skipGaps_suffix rest).trans behind
      rw [placeOf_cons inside, skipGaps_eq behind]
      cases read : CallSite.readList (Script.skipGaps rest) with
      | error refusal => simp [expect?, list, readList_eq first, read]
      | ok pair =>
        obtain ⟨elements, after⟩ := pair
        have past := (readList_suffix read).trans first
        cases next : CallSite.nextArgument .noFactoryAfterDependencies after <;>
          simp [expect?, list, readList_eq first, read, located, nextArgument_eq _ past, next]
    · simp [expect?, list, located]

def closeCall (text : Bytes) (place : Nat) : Guarded Nat := do
  match ← (expect text rightParen (← skipGaps text place)).run with
  | some past => return past
  | none => return place

private theorem closeCall_eq (inside : rest <:+ text) :
    closeCall text (placeOf text rest) = some (placeOf text (CallSite.closeCall rest)) := by
  rw [closeCall, CallSite.closeCall, skipGaps_eq inside]
  cases closed : expect? rightParen (Script.skipGaps rest) <;>
    simp [expect_eq ((skipGaps_suffix rest).trans inside), closed]

def readCompiled (text : Bytes) (place : Nat) : Guarded (Payload × Nat) := do
  if text.length < place + 4 then return (⟨.bytecode, [], true⟩, text.length)
  else
    let length := Word32.ofBytes (← byte text place) (← byte text (place + 1))
      (← byte text (place + 2)) (← byte text (place + 3))
    let start := place + 4
    if text.length - start < length then
      return (⟨.bytecode, ← part text start text.length, true⟩, text.length)
    else
      let body ← part text start (start + length)
      return (⟨.bytecode, body, false⟩, ← closeCall text (start + length))

private theorem readCompiled_short (inside : rest <:+ text) (short : rest.length < 4) :
    readCompiled text (placeOf text rest) = some (located text (CallSite.readCompiled rest)) := by
  have behind : text.length < placeOf text rest + 4 := by
    have := inside.length_le
    rw [placeOf]
    omega
  rw [readCompiled, if_pos behind, CallSite.readCompiled, Word32.read?_eq_none short]
  rfl

private theorem readCompiled_full {a b c d : UInt8} {bytes : Bytes}
    (inside : a :: b :: c :: d :: bytes <:+ text) :
    readCompiled text (placeOf text (a :: b :: c :: d :: bytes)) =
      some (located text (CallSite.readCompiled (a :: b :: c :: d :: bytes))) := by
  have second := suffix_of_cons inside
  have third := suffix_of_cons second
  have fourth := suffix_of_cons third
  have behind := suffix_of_cons fourth
  have last : placeOf text (a :: b :: c :: d :: bytes) + 3 = placeOf text (d :: bytes) :=
    placeOf_append (show [a, b, c] ++ d :: bytes <:+ text from inside)
  have start : placeOf text (a :: b :: c :: d :: bytes) + 4 = placeOf text bytes :=
    placeOf_append (show [a, b, c, d] ++ bytes <:+ text from inside)
  have left : text.length - placeOf text bytes = bytes.length := by
    have := behind.length_le
    rw [placeOf]
    omega
  have enough : ¬ text.length < placeOf text bytes := Nat.not_lt.mpr (placeOf_le text bytes)
  have read : Word32.read? (a :: b :: c :: d :: bytes) = some (Word32.ofBytes a b c d) := rfl
  rw [readCompiled, start, if_neg enough, byte_eq inside, placeOf_cons inside, byte_eq second,
    placeOf_cons_cons inside, byte_eq third, last, byte_eq fourth, CallSite.readCompiled, read]
  simp only [Option.bind_eq_bind, Option.bind_some, left, List.drop_succ_cons, List.drop_zero]
  generalize Word32.ofBytes a b c d = length
  by_cases short : bytes.length < length
  · have whole := part_eq behind (List.append_nil bytes)
    rw [placeOf_nil] at whole
    simp [short, whole, located, placeOf_nil]
  · have past : bytes.drop length <:+ text := (List.drop_suffix length bytes).trans behind
    have finish : placeOf text bytes + length = placeOf text (bytes.drop length) := by
      have := behind.length_le
      simp only [placeOf, List.length_drop]
      omega
    have body := part_eq behind (List.take_append_drop length bytes)
    simp [short, finish, body, closeCall_eq past, located]

private theorem readCompiled_eq (inside : rest <:+ text) :
    readCompiled text (placeOf text rest) = some (located text (CallSite.readCompiled rest)) := by
  match rest, inside with
  | [], inside | [_], inside | [_, _], inside | [_, _, _], inside =>
    exact readCompiled_short inside (by simp)
  | a :: b :: c :: d :: bytes, inside => exact readCompiled_full inside

def readSource (text : Bytes) (place : Nat) : Guarded (Payload × Nat) := do
  match ← (closeFrame text .start [] place).run with
  | none => return (⟨.source, ← part text place text.length, true⟩, text.length)
  | some past =>
    let body ← part text place (past - 1)
    return (⟨.source, body, false⟩, ← closeCall text past)

private theorem readSource_eq (inside : rest <:+ text) :
    readSource text (placeOf text rest) = some (located text (CallSite.readSource rest)) := by
  rw [readSource, CallSite.readSource, closeFrame_eq inside]
  cases closed : Script.closeFrame .start [] rest with
  | none =>
    have whole : part text (placeOf text rest) (placeOf text []) = some rest :=
      part_eq inside (List.append_nil rest)
    rw [placeOf_nil] at whole
    simp [whole, located, placeOf_nil]
  | some after =>
    have behind := closeFrame_suffix closed
    have before : placeOf text after - 1 - placeOf text rest = rest.length - after.length - 1 := by
      have := inside.length_le
      have := behind.length_le
      simp only [placeOf]
      omega
    simp [part_until inside, before, closeCall_eq (behind.trans inside), located]

def readFactory (text : Bytes) (place : Nat) : Reading (Payload × Nat) := do
  if ← sees text nul place then return ← readCompiled text (place + 1)
  else
    match ← (readFunction text place).run with
    | none => throw (.factoryNotFunction, place)
    | some body => return ← readSource text body

private theorem readFactory_eq (inside : rest <:+ text) :
    readFactory text (placeOf text rest) =
      answered text (located text) (CallSite.readFactory rest) := by
  rw [readFactory, CallSite.readFactory, sees_eq inside, readFunction_eq inside]
  by_cases compiled : rest.head? = some nul
  · cases rest with
    | nil => cases compiled
    | cons b rest =>
      obtain rfl : b = nul := Option.some.inj compiled
      simp [expect?, placeOf_cons inside, readCompiled_eq (suffix_of_cons inside)]
  · have noByte : expect? nul rest = none := by
      cases rest with
      | nil => rfl
      | cons b rest => simpa [expect?] using compiled
    cases source : Factory.read? rest with
    | none => simp [compiled, noByte]
    | some body =>
      simp [compiled, noByte, readSource_eq ((Factory.read?_suffix source).trans inside)]

/-- The module of a registration, for whose requirements its own source is walked over. -/
def readModule (path : Bytes) (listed : List Bytes) (payload : Payload) : Guarded ScriptModule := do
  let required ← match payload.form with
    | .source => requires payload.body
    | .bytecode => pure []
  return {
    path
    dependencies := .ofList ((listed ++ required).map (Specifier.resolve path))
    body := payload.body
    form := payload.form
    truncated := payload.truncated }

private theorem readModule_eq (path : Bytes) (listed : List Bytes) (payload : Payload) :
    readModule path listed payload = some (toModule path listed payload) := by
  obtain ⟨form, body, truncated⟩ := payload
  cases form with
  | source => simp [readModule, requires_eq, toModule]
  | bytecode => simp [readModule, toModule]

def readCall (text : Bytes) (place : Nat) : Reading (ScriptModule × Nat) := do
  let (path, afterPath) ← readPath text place
  let argument ← nextArgument .noFactoryAfterPath text afterPath
  let (listed, factory) ← readDependencies text argument
  let (payload, past) ← readFactory text factory
  return (← readModule path listed payload, past)

private theorem readCall_eq (inside : rest <:+ text) :
    readCall text (placeOf text rest) = answered text (located text) (CallSite.read rest) := by
  rw [readCall, CallSite.read, readPath_eq inside]
  cases path : CallSite.readPath rest with
  | error refusal => simp
  | ok pair =>
    have afterPath := (readPath_suffix path).trans inside
    cases comma : CallSite.nextArgument .noFactoryAfterPath pair.2 with
    | error refusal => simp [located, nextArgument_eq _ afterPath, comma]
    | ok argument =>
      have first := (nextArgument_suffix comma).trans afterPath
      cases list : CallSite.readDependencies argument with
      | error refusal =>
        simp [located, nextArgument_eq _ afterPath, comma, readDependencies_eq first, list]
      | ok listed =>
        have second := (readDependencies_suffix list).trans first
        cases factory : CallSite.readFactory listed.2 <;>
          simp [located, nextArgument_eq _ afterPath, comma, readDependencies_eq first, list,
            readFactory_eq second, factory, readModule_eq]

def visitCall (text : Bytes) (names : List Bytes) (afterDot : Bool) (start finish : Nat) :
    Guarded (List Bundle.Item × Option Nat) := do
  if afterDot then return ([], none)
  else
    let word ← part text start finish
    if word ∉ names then return ([], none)
    else
      match ← (expect text leftParen (← skipGaps text finish)).run with
      | none => return ([], none)
      | some inside =>
        match ← (readCall text inside).run with
        | .ok (record, past) => return ([.site start past record], some past)
        | .error (defect, stop) => return ([.unrecognized start stop defect], none)

private theorem visitCall_eq {names : List Bytes} {word : Bytes} (afterDot : Bool)
    (inside : word ++ rest <:+ text) :
    visitCall text names afterDot (placeOf text (word ++ rest)) (placeOf text rest) =
      some (((Bundle.visitor text.length names).visit afterDot word rest).found,
        ((Bundle.visitor text.length names).visit afterDot word rest).past.map (placeOf text)) := by
  have behind := (List.suffix_append word rest).trans inside
  have list := (skipGaps_suffix rest).trans behind
  have start : text.length - (word.length + rest.length) = placeOf text (word ++ rest) := by
    rw [placeOf, List.length_append]
  have finish : ∀ past : Bytes, text.length - past.length = placeOf text past := fun _ => rfl
  rw [visitCall, part_eq inside rfl, skipGaps_eq behind]
  cases afterDot with
  | true => simp [Bundle.visitor]
  | false =>
    by_cases named : word ∈ names
    · cases opened : expect? leftParen (Script.skipGaps rest) with
      | none => simp [Bundle.visitor, named, expect_eq list, opened]
      | some call =>
        have first := (expect?_suffix opened).trans list
        cases read : CallSite.read call <;>
          simp [Bundle.visitor, named, expect_eq list, opened, readCall_eq first, read, start, finish,
            located]
    · simp [Bundle.visitor, named]

/-- Every registration call of a bundle. -/
def scan (names : List Bytes) (text : Bytes) : Guarded (List Bundle.Item) :=
  walk text (visitCall text names) false {} 0

theorem scan_eq (names : List Bytes) (text : Bytes) :
    scan names text = some (Bundle.scan names text) := by
  have walked : walk text (visitCall text names) false {} (placeOf text text) =
      some ((Bundle.visitor text.length names).walk false {} text) :=
    walk_eq (fun afterDot word rest => visitCall_eq afterDot) (List.suffix_refl text)
  rwa [placeOf_self] at walked

end Unbundle.Script.Guarded
