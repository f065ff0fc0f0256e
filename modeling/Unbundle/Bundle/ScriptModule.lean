import Unbundle.Path.Specifier
import Unbundle.Script.Factory
import Unbundle.Script.Walk
import Std.Data.ExtTreeSet

namespace Unbundle

open Script Ascii

abbrev PathSet := Std.ExtTreeSet Bytes

inductive Form where
  | source | bytecode
  deriving DecidableEq, Repr

/-- A module as it was registered. `truncated` says that the bundle ended inside its body. -/
structure ScriptModule where
  path : Bytes
  dependencies : PathSet
  body : Bytes
  form : Form
  truncated : Bool
  deriving DecidableEq

namespace Require

/-- The specifier of a call with one literal argument, and the text after the call. -/
def argument? (text : Bytes) : Option (Bytes × Bytes) := do
  let inside ← expect? leftParen (skipGaps text)
  let (specifier, after) ← Literal.quoted? (skipGaps inside)
  let past ← expect? rightParen (skipGaps after)
  some (specifier, past)

private theorem argument?_suffix {text specifier past : Bytes}
    (found : argument? text = some (specifier, past)) : past <:+ text := by
  obtain ⟨inside, opened, found⟩ := Option.bind_eq_some_iff.mp found
  obtain ⟨⟨specifier, after⟩, literal, found⟩ := Option.bind_eq_some_iff.mp found
  obtain ⟨past, closed, found⟩ := Option.bind_eq_some_iff.mp found
  cases found
  exact (expect?_suffix closed).trans ((skipGaps_suffix after).trans
    ((Literal.quoted?_suffix literal).trans ((skipGaps_suffix inside).trans
      ((expect?_suffix opened).trans (skipGaps_suffix text)))))

/-- Finds the specifiers of all calls that are no property access. -/
def visitor : Visitor Bytes where
  visit afterDot word rest :=
    if afterDot || word ≠ utf8 "require" then {}
    else
      match argument? rest with
      | none => {}
      | some (specifier, past) =>
        { found := if specifier = [] then [] else [specifier], past := some past }
  suffix := by
    intro afterDot word rest past found
    split at found
    · simp at found
    · split at found
      · simp at found
      · next specifier after argument =>
        cases found
        exact argument?_suffix argument

end Require

/-- The specifiers that a module's source requires. -/
def requires (source : Bytes) : List Bytes := Require.visitor.run source

end Unbundle
