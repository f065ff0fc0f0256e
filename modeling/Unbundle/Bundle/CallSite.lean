import Unbundle.Bundle.ScriptModule
import Unbundle.Path.Entry
import Unbundle.Bytes.Word32

/-!
Call sites of a registration: the module path, an optional list of dependencies, and the factory,
which is a function literal or compiled bytes behind a NUL. Main statement: an understood call
leaves a suffix of the text.
-/

namespace Unbundle.CallSite

open Script Ascii

inductive Defect where
  | pathNotLiteral
  | unterminatedPath
  | unusablePath (written : Bytes)
  | noFactoryAfterPath
  | dependencyNotLiteral
  | unterminatedDependency
  | malformedDependencies
  | unterminatedDependencies
  | noFactoryAfterDependencies
  | factoryNotFunction
  deriving DecidableEq, Repr

def Defect.message : Defect → Bytes
  | pathNotLiteral => utf8 "module path is not a string literal"
  | unterminatedPath => utf8 "unterminated module path"
  | unusablePath written => utf8 "unusable module path '" ++ written ++ utf8 "'"
  | noFactoryAfterPath => utf8 "missing factory after module path"
  | dependencyNotLiteral => utf8 "dependency is not a string literal"
  | unterminatedDependency => utf8 "unterminated dependency"
  | malformedDependencies => utf8 "malformed dependency list"
  | unterminatedDependencies => utf8 "unterminated dependency list"
  | noFactoryAfterDependencies => utf8 "missing factory after dependency list"
  | factoryNotFunction => utf8 "factory is not a function literal"

/-- Why a call was not understood, and the text after what was read of it. -/
structure Refusal where
  defect : Defect
  rest : Bytes
  deriving DecidableEq, Repr

/-- The canonical path of the module that the first argument names. -/
def readPath (text : Bytes) : Except Refusal (Bytes × Bytes) :=
  match skipGaps text with
  | [] => .error ⟨.pathNotLiteral, []⟩
  | b :: rest =>
    if isQuote b then
      match Literal.read? b rest with
      | none => .error ⟨.unterminatedPath, []⟩
      | some (written, after) =>
        match Path.canonical? written with
        | none => .error ⟨.unusablePath written, after⟩
        | some path => .ok (path, after)
    else .error ⟨.pathNotLiteral, b :: rest⟩

/-- The text of the next argument, past the comma before it. -/
def nextArgument (missing : Defect) (text : Bytes) : Except Refusal Bytes :=
  match expect? comma (skipGaps text) with
  | some rest => .ok (skipGaps rest)
  | none => .error ⟨missing, skipGaps text⟩

/-- The elements of a list whose bracket is open, and the text after the closing one. A comma may
follow the last element. -/
def readList (text : Bytes) : Except Refusal (List Bytes × Bytes) :=
  match text with
  | [] => .error ⟨.unterminatedDependencies, []⟩
  | b :: rest =>
    if b = rightBracket then .ok ([], rest)
    else if isQuote b then
      match _element : Literal.read? b rest with
      | none => .error ⟨.unterminatedDependency, []⟩
      | some (element, after) =>
        match _next : skipGaps after with
        | [] => .error ⟨.unterminatedDependencies, []⟩
        | c :: tail =>
          if c = comma then
            (readList (skipGaps tail)).map fun (elements, past) => (element :: elements, past)
          else if c = rightBracket then .ok ([element], tail)
          else .error ⟨.malformedDependencies, c :: tail⟩
    else .error ⟨.dependencyNotLiteral, b :: rest⟩
termination_by text.length
decreasing_by
  have first := (Literal.read?_suffix _element).length_le
  have second := (skipGaps_suffix after).length_le
  have third := (skipGaps_suffix tail).length_le
  rw [_next] at second
  simp only [List.length_cons] at *
  omega

/-- The dependencies listed before the factory, none if there is no list. -/
def readDependencies (text : Bytes) : Except Refusal (List Bytes × Bytes) :=
  match expect? leftBracket text with
  | none => .ok ([], text)
  | some inside => do
    let (elements, after) ← readList (skipGaps inside)
    let next ← nextArgument .noFactoryAfterDependencies after
    .ok (elements, next)

structure Payload where
  form : Form
  body : Bytes
  truncated : Bool
  deriving DecidableEq, Repr

/-- The text after the call, if its parenthesis comes next. -/
def closeCall (text : Bytes) : Bytes := (expect? rightParen (skipGaps text)).getD text

/-- Compiled bytes behind their length, as many as there are. -/
def readCompiled (text : Bytes) : Payload × Bytes :=
  match Word32.read? text with
  | none => (⟨.bytecode, [], true⟩, [])
  | some length =>
    let bytes := text.drop 4
    if bytes.length < length then (⟨.bytecode, bytes, true⟩, [])
    else (⟨.bytecode, bytes.take length, false⟩, closeCall (bytes.drop length))

/-- The source up to the brace that closes it, or all of it. -/
def readSource (text : Bytes) : Payload × Bytes :=
  match closeFrame .start [] text with
  | none => (⟨.source, text, true⟩, [])
  | some after =>
    (⟨.source, text.take (text.length - after.length - 1), false⟩, closeCall after)

def readFactory (text : Bytes) : Except Refusal (Payload × Bytes) :=
  match expect? nul text with
  | some compiled => .ok (readCompiled compiled)
  | none =>
    match Factory.read? text with
    | none => .error ⟨.factoryNotFunction, text⟩
    | some source => .ok (readSource source)

/-- The module of a registration: its dependencies are the listed ones and those that its source
requires, resolved from its path. -/
def toModule (path : Bytes) (listed : List Bytes) (payload : Payload) : ScriptModule where
  path := path
  dependencies :=
    let required := match payload.form with
      | .source => requires payload.body
      | .bytecode => []
    .ofList ((listed ++ required).map (Specifier.resolve path))
  body := payload.body
  form := payload.form
  truncated := payload.truncated

/-- The module registered by the call whose parenthesis is open, and the text after the call. -/
def read (text : Bytes) : Except Refusal (ScriptModule × Bytes) := do
  let (path, afterPath) ← readPath text
  let argument ← nextArgument .noFactoryAfterPath afterPath
  let (listed, factory) ← readDependencies argument
  let (payload, past) ← readFactory factory
  .ok (toModule path listed payload, past)

theorem readPath_suffix {text path rest : Bytes} (read : readPath text = .ok (path, rest)) :
    rest <:+ text := by
  unfold readPath at read
  split at read
  · simp at read
  · next b tail start =>
    split at read
    · split at read
      · simp at read
      · next literal =>
        split at read
        · simp at read
        · cases read
          have inside : b :: tail <:+ text := start ▸ skipGaps_suffix text
          exact (Literal.read?_suffix literal).trans ((List.suffix_cons _ _).trans inside)
    · simp at read

theorem nextArgument_suffix {missing : Defect} {text rest : Bytes}
    (read : nextArgument missing text = .ok rest) : rest <:+ text := by
  unfold nextArgument at read
  split at read
  · next found =>
    cases read
    exact (skipGaps_suffix _).trans ((expect?_suffix found).trans (skipGaps_suffix text))
  · simp at read

theorem readList_suffix {text rest : Bytes} {elements : List Bytes}
    (read : readList text = .ok (elements, rest)) : rest <:+ text := by
  fun_induction readList text generalizing elements with
  | case2 => cases read; exact List.suffix_cons _ _
  | case5 b _ _ _ _ after literal tail next ih =>
    have inside : comma :: tail <:+ after := next ▸ skipGaps_suffix after
    cases list : readList (skipGaps tail) with
    | error refusal => simp [list, Except.map] at read
    | ok pair =>
      simp only [list, Except.map, Except.ok.injEq, Prod.mk.injEq] at read
      obtain ⟨_, rfl⟩ := read
      exact (ih list).trans ((skipGaps_suffix tail).trans ((List.suffix_cons _ _).trans
        (inside.trans ((Literal.read?_suffix literal).trans (List.suffix_cons _ _)))))
  | case6 b _ _ _ _ after literal inner next =>
    have inside : rightBracket :: inner <:+ after := next ▸ skipGaps_suffix after
    cases read
    exact (List.suffix_cons _ _).trans
      (inside.trans ((Literal.read?_suffix literal).trans (List.suffix_cons _ _)))
  | _ => simp at read

theorem readDependencies_suffix {text rest : Bytes} {elements : List Bytes}
    (read : readDependencies text = .ok (elements, rest)) : rest <:+ text := by
  unfold readDependencies at read
  split at read
  · cases read; exact List.suffix_refl _
  · next inside opened =>
    cases list : readList (skipGaps inside) with
    | error refusal => simp [list, bind, Except.bind] at read
    | ok pair =>
      obtain ⟨found, after⟩ := pair
      cases next : nextArgument .noFactoryAfterDependencies after with
      | error refusal => simp [list, next, bind, Except.bind] at read
      | ok past =>
        simp only [list, next, bind, Except.bind, Except.ok.injEq, Prod.mk.injEq] at read
        rw [← read.2]
        exact (nextArgument_suffix next).trans ((readList_suffix list).trans
          ((skipGaps_suffix inside).trans (expect?_suffix opened)))

theorem closeCall_suffix (text : Bytes) : closeCall text <:+ text := by
  unfold closeCall
  cases closed : expect? rightParen (skipGaps text) with
  | none => exact List.suffix_refl _
  | some rest => exact (expect?_suffix closed).trans (skipGaps_suffix text)

private theorem readCompiled_suffix (text : Bytes) : (readCompiled text).2 <:+ text := by
  unfold readCompiled
  split
  · exact List.nil_suffix
  · dsimp only
    split
    · exact List.nil_suffix
    · exact (closeCall_suffix _).trans ((List.drop_suffix _ _).trans (List.drop_suffix _ _))

private theorem readSource_suffix (text : Bytes) : (readSource text).2 <:+ text := by
  unfold readSource
  split
  · exact List.nil_suffix
  · next closed => exact (closeCall_suffix _).trans (closeFrame_suffix closed)

private theorem readFactory_suffix {text rest : Bytes} {payload : Payload}
    (read : readFactory text = .ok (payload, rest)) : rest <:+ text := by
  unfold readFactory at read
  split at read
  · next inside compiled =>
    simp only [Except.ok.injEq] at read
    have suffix := readCompiled_suffix inside
    rw [read] at suffix
    exact suffix.trans (expect?_suffix compiled)
  · split at read
    · simp at read
    · next inside source =>
      simp only [Except.ok.injEq] at read
      have suffix := readSource_suffix inside
      rw [read] at suffix
      exact suffix.trans (Factory.read?_suffix source)

theorem read_suffix {text rest : Bytes} {record : ScriptModule}
    (found : read text = .ok (record, rest)) : rest <:+ text := by
  unfold read at found
  cases path : readPath text with
  | error refusal => simp [path, bind, Except.bind] at found
  | ok pair =>
    obtain ⟨name, afterPath⟩ := pair
    cases argument : nextArgument .noFactoryAfterPath afterPath with
    | error refusal => simp [path, argument, bind, Except.bind] at found
    | ok inside =>
      cases list : readDependencies inside with
      | error refusal => simp [path, argument, list, bind, Except.bind] at found
      | ok pair =>
        obtain ⟨listed, slot⟩ := pair
        cases factory : readFactory slot with
        | error refusal => simp [path, argument, list, factory, bind, Except.bind] at found
        | ok pair =>
          obtain ⟨payload, past⟩ := pair
          simp only [path, argument, list, factory, bind, Except.bind, Except.ok.injEq,
            Prod.mk.injEq] at found
          rw [← found.2]
          exact (readFactory_suffix factory).trans ((readDependencies_suffix list).trans
            ((nextArgument_suffix argument).trans (readPath_suffix path)))

end Unbundle.CallSite
