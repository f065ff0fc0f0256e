import Unbundle.Json.Library
import Unbundle.Json.Reader
import Unbundle.Json.Writer

/-!
A JSON library of our own. It keeps numbers as they are written and takes whole ones only.
-/

namespace Unbundle.Json

def wrongKind (wanted : String) (value : Value) : Bytes :=
  utf8 "[json.exception.type_error.302] type must be " ++ utf8 wanted ++ utf8 ", but is " ++
    utf8 value.kind

def takeText : Value → Except Bytes Bytes
  | .text text => .ok text
  | value => .error (wrongKind "string" value)

def takeTexts : Value → Except Bytes (List Bytes)
  | .array items => items.mapM takeText
  | value => .error (wrongKind "array" value)

def digitsValue (digits : Bytes) : Nat :=
  digits.foldl (fun n digit => n * 10 + (digit - 0x30).toNat) 0

/-- The number that a text writes without a fraction. -/
def whole? (text : Bytes) : Option Int :=
  let digits := if text.head? = some Ascii.minus then text.tail else text
  if digits.all Ascii.isDigit then
    some (if text.head? = some Ascii.minus then -digitsValue digits else digitsValue digits)
  else none

def takeNumber (value : Value) : Except Bytes Int :=
  match value with
  | .number text =>
    match whole? text with
    | some n => .ok n
    | none => .error (utf8 "not a whole number: " ++ text)
  | _ => .error (wrongKind "number" value)

/-- A narrow number may be given as a truth value. -/
def takeNarrow : Value → Except Bytes Int
  | .bool value => .ok value.toNat
  | value => takeNumber value

/-- Numbers beyond a word's width lose their upper bits. -/
def Library.plain : Library where
  parse text := (read? text).elim (.error (utf8 "syntax error")) .ok
  dump value := .ok (write 0 value)
  text := takeText
  texts := takeTexts
  word32 value := (takeNarrow value).map fun n => (n % 0x100000000).toNat.toUInt32
  word64 value := (takeNumber value).map fun n => (n % 0x10000000000000000).toNat.toUInt64
  int32 value := (takeNarrow value).map Int32.ofInt

end Unbundle.Json
