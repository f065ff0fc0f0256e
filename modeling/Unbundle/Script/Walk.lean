import Unbundle.Script.Balance

/-!
Walking over the words of code. A visitor is shown every word that stands in code, not those
inside literals, comments and templates, and may read on and say where to resume.
-/

namespace Unbundle.Script

open Ascii

/-- What a visitor makes of a word: the items it found, and the text past all that it read. -/
structure Visit (α : Type) where
  found : List α := []
  past : Option Bytes := none

/-- `visit` is told whether the word follows a dot, the word, and the text after it. What it
leaves is a suffix of that text, so that a walk comes to its end. -/
structure Visitor (α : Type) where
  visit : Bool → Bytes → Bytes → Visit α
  suffix : ∀ {afterDot : Bool} {word rest past : Bytes},
    (visit afterDot word rest).past = some past → past <:+ rest

/-- All that the visitor finds, in order. The walk ends at the end of the text and where a
literal, a template or a comment does not end. -/
def Visitor.walk {α : Type} (visitor : Visitor α) (afterDot : Bool) (history : History)
    (text : Bytes) : List α :=
  match _read : Piece.read? history.divides text with
  | none => []
  | some (.template rest) =>
    match _closed : closeFrame .template [] rest with
    | none => []
    | some after => visitor.walk afterDot history.operand after
  | some (.word word rest) =>
    let visit := visitor.visit afterDot word rest
    match _past : (visitor.visit afterDot word rest).past with
    | some past => visit.found ++ visitor.walk false history.operand past
    | none => visit.found ++ visitor.walk false (history.word word) rest
  | some (.increment rest) => visitor.walk false history.operand rest
  | some (.mark b rest) => visitor.walk (b = dot) (history.mark b) rest
  | some piece => visitor.walk afterDot (history.after piece) piece.rest
termination_by text.length
decreasing_by
  · exact Nat.lt_of_le_of_lt (closeFrame_suffix _closed).length_le (Piece.length_rest _read)
  · exact Nat.lt_of_le_of_lt (visitor.suffix _past).length_le (Piece.length_rest _read)
  all_goals exact Piece.length_rest _read

/-- All that the visitor finds from the start of a script. -/
def Visitor.run {α : Type} (visitor : Visitor α) (text : Bytes) : List α :=
  visitor.walk false {} text

end Unbundle.Script
