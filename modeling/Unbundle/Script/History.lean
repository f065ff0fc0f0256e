import Unbundle.Script.Word

namespace Unbundle.Script

open Ascii

inductive Previous where
  | start | operand | operator
  deriving DecidableEq, Repr

/-- `openParens` says of each open parenthesis, the innermost first, whether it holds the
condition of a statement. -/
structure History where
  previous : Previous := .start
  afterConditionWord : Bool := false
  openParens : List Bool := []
  deriving DecidableEq, Repr

namespace History

/-- At the start of a block, where a statement or an expression begins. -/
def block : History where
  previous := .operator

/-- A slash divides exactly after an operand. -/
def divides (history : History) : Bool := history.previous = .operand

def operand (history : History) : History :=
  { history with previous := .operand, afterConditionWord := false }

def operator (history : History) : History :=
  { history with previous := .operator, afterConditionWord := false }

def word (history : History) (text : Bytes) : History :=
  { history with
    previous := if text ∈ Word.expectOperand then .operator else .operand
    afterConditionWord := text ∈ Word.takeCondition }

def openParen (history : History) : History :=
  { history.operator with openParens := history.afterConditionWord :: history.openParens }

/-- After a condition a statement begins; any other closing parenthesis ends an operand. -/
def closeParen (history : History) : History :=
  let closed := { history with openParens := history.openParens.tail }
  if history.openParens.head? = some true then closed.operator else closed.operand

/-- A block inside the code has ended and a statement begins. -/
def closeBlock (history : History) : History := { history with previous := .operator }

/-- A whole block was read as one value. -/
def blockValue (history : History) : History := { history with previous := .operand }

def mark (history : History) (b : UInt8) : History :=
  if b = leftParen then history.openParen
  else if b = rightParen then history.closeParen
  else if b = rightBracket then history.operand
  else history.operator

end History

end Unbundle.Script
