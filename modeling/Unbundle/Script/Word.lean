import Unbundle.Script.Blank

/-!
Words: identifiers, keywords and numbers of a script, which it does not tell apart. Every byte
outside ASCII belongs to a word unless it starts a blank.
-/

namespace Unbundle.Script

open Ascii

namespace Word

def isStart (b : UInt8) : Bool := isLetter b || b = underscore || b = dollar || 0x80 ≤ b

def isPart (b : UInt8) : Bool := isStart b || isDigit b

/-- The longest word at the front, empty if there is none, and the text after it. -/
def split : Bytes → Bytes × Bytes
  | [] => ([], [])
  | b :: rest =>
    if isPart b && !isBlank (b :: rest) then
      let (word, after) := split rest
      (b :: word, after)
    else ([], b :: rest)

theorem split_append (text : Bytes) : (split text).1 ++ (split text).2 = text := by
  induction text with
  | nil => rfl
  | cons b rest ih => simp only [split]; split <;> simp [ih]

theorem split_suffix (text : Bytes) : (split text).2 <:+ text := ⟨_, split_append text⟩

/-- Words after which a slash begins a regular expression, as no operand stands before it. -/
def expectOperand : List Bytes :=
  ["return", "typeof", "instanceof", "in", "of", "new", "delete", "void", "throw", "case", "do",
   "else", "yield", "await"].map utf8

/-- Words whose condition in parentheses is followed by a statement. -/
def takeCondition : List Bytes := ["if", "while", "for", "with"].map utf8

end Word

end Unbundle.Script
