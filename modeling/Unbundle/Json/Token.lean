import Unbundle.Bytes.Ascii
import Unbundle.Json.Value

namespace Unbundle.Json

open Ascii

inductive Token where
  | openObject | closeObject | openArray | closeArray | comma | colon
  | text (text : Bytes)
  | scalar (value : Value)

def isWhitespace (b : UInt8) : Bool := b ∈ [space, tab, newline, carriageReturn]

/-- The bytes that may stand after a backslash, other than the one that begins a number, and the
bytes that they stand for. -/
def simpleEscapes : List (UInt8 × UInt8) :=
  [(doubleQuote, doubleQuote), (backslash, backslash), (slash, slash), (0x62, backspace),
   (0x66, formFeed), (0x6E, newline), (0x72, carriageReturn), (0x74, tab)]

/-- The number that four hexadecimal digits write. -/
def unit? (a b c d : UInt8) : Option Nat := do
  let digits ← [a, b, c, d].mapM hexValue?
  some (digits.foldl (fun unit digit => unit * 16 + digit.toNat) 0)

/-- The character that two halves stand for. -/
def ofHalves (high low : Nat) : Char :=
  Char.ofNat (0x10000 + (high - 0xD800) * 0x400 + (low - 0xDC00))

def isHighHalf (unit : Nat) : Bool := 0xD800 ≤ unit && unit < 0xDC00

def isLowHalf (unit : Nat) : Bool := 0xDC00 ≤ unit && unit < 0xE000

/-- What a string says, and the text after its closing quote. -/
def string? : Bytes → Option (Bytes × Bytes)
  | [] => none
  | b :: rest =>
    let more (said : Bytes) (read : Option (Bytes × Bytes)) :=
      read.map fun (text, after) => (said ++ text, after)
    if b = doubleQuote then some ([], rest)
    else if b < space then none
    else if b = backslash then
      match rest with
      | 0x75 :: h :: i :: j :: k :: after =>
        match unit? h i j k with
        | none => none
        | some unit =>
          if isHighHalf unit then
            match after with
            | 0x5C :: 0x75 :: h :: i :: j :: k :: after =>
              match unit? h i j k with
              | none => none
              | some low =>
                if isLowHalf low then more (String.utf8EncodeChar (ofHalves unit low)) (string? after)
                else none
            | _ => none
          else if isLowHalf unit then none
          else more (String.utf8EncodeChar (Char.ofNat unit)) (string? after)
      | letter :: after =>
        match simpleEscapes.lookup letter with
        | none => none
        | some said => more [said] (string? after)
      | [] => none
    else more [b] (string? rest)

/-- The text after one digit or more. -/
def digitsEnd? (text : Bytes) : Option Bytes :=
  if (text.head?.map isDigit).getD false then some (text.dropWhile isDigit) else none

def wholeEnd? : Bytes → Option Bytes
  | [] => none
  | b :: rest => if b = 0x30 then some rest else digitsEnd? (b :: rest)

def fractionEnd? : Bytes → Option Bytes
  | [] => some []
  | b :: rest => if b = dot then digitsEnd? rest else some (b :: rest)

def exponentEnd? : Bytes → Option Bytes
  | [] => some []
  | b :: rest =>
    if b ∉ [0x65, 0x45] then some (b :: rest)
    else
      match rest with
      | [] => none
      | sign :: digits => digitsEnd? (if sign ∈ [plus, minus] then digits else rest)

/-- The text after a number. -/
def numberEnd? (text : Bytes) : Option Bytes := do
  let unsigned := if text.head? = some minus then text.tail else text
  exponentEnd? (← fractionEnd? (← wholeEnd? unsigned))

def words : List (Bytes × Value) :=
  [(utf8 "true", .bool true), (utf8 "false", .bool false), (utf8 "null", .null)]

def punctuation : List (UInt8 × Token) :=
  [(leftBrace, .openObject), (rightBrace, .closeObject), (leftBracket, .openArray),
   (rightBracket, .closeArray), (comma, .comma), (0x3A, .colon)]

/-- The token at the front of a text without whitespace before it. -/
def next? (b : UInt8) (rest : Bytes) : Option (Token × Bytes) :=
  match punctuation.lookup b with
  | some token => some (token, rest)
  | none =>
    if b = doubleQuote then (string? rest).map fun (text, after) => (.text text, after)
    else
      let text := b :: rest
      match words.findSome? fun (word, value) => (word.isPrefixOf? text).map (value, ·) with
      | some (value, after) => some (.scalar value, after)
      | none => (numberEnd? text).map fun after =>
        (.scalar (.number (text.take (text.length - after.length))), after)

/-- The tokens of a text; nothing if something in it is no token. -/
def tokens? (text : Bytes) : Option (List Token) :=
  match text with
  | [] => some []
  | b :: rest =>
    if isWhitespace b then tokens? rest
    else
      match next? b rest with
      | none => none
      | some (token, after) =>
        if after.length ≤ rest.length then (tokens? after).map (token :: ·) else none
termination_by text.length

end Unbundle.Json
