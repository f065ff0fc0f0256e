import Unbundle.Bytes.Ascii
import Unbundle.Json.Value

namespace Unbundle.Json

open Ascii

def escapes : List (UInt8 × Bytes) :=
  [(doubleQuote, utf8 "\\\""), (backslash, utf8 "\\\\"), (backspace, utf8 "\\b"),
   (formFeed, utf8 "\\f"), (newline, utf8 "\\n"), (carriageReturn, utf8 "\\r"), (tab, utf8 "\\t")]

def writeByte (b : UInt8) : Bytes :=
  match escapes.lookup b with
  | some written => written
  | none => if b < space then utf8 "\\u00" ++ Bytes.hex [b] else [b]

def writeText (text : Bytes) : Bytes := doubleQuote :: text.flatMap writeByte ++ [doubleQuote]

/-- A new line with its indentation. -/
def lineBreak (depth : Nat) : Bytes := newline :: List.replicate (2 * depth) space

/-- What stands in a pair of brackets, on lines of its own. -/
def bracketed (opening closing : UInt8) (depth : Nat) (parts : List Bytes) : Bytes :=
  if parts = [] then [opening, closing]
  else
    opening :: lineBreak (depth + 1) ++ (comma :: lineBreak (depth + 1)).intercalate parts ++
      lineBreak depth ++ [closing]

mutual

/-- A value as it is written inside a number of brackets. -/
def write (depth : Nat) : Value → Bytes
  | .null => utf8 "null"
  | .bool value => utf8 (if value then "true" else "false")
  | .number text => text
  | .text text => writeText text
  | .array items => bracketed leftBracket rightBracket depth (writeItems (depth + 1) items)
  | .object fields => bracketed leftBrace rightBrace depth (writeFields (depth + 1) fields)

def writeItems (depth : Nat) : List Value → List Bytes
  | [] => []
  | item :: items => write depth item :: writeItems depth items

def writeFields (depth : Nat) : List (Bytes × Value) → List Bytes
  | [] => []
  | (name, value) :: fields =>
    (writeText name ++ utf8 ": " ++ write depth value) :: writeFields depth fields

end

end Unbundle.Json
