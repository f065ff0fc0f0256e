import Unbundle.Json.Token

namespace Unbundle.Json

/-- An open bracket with what stands behind it so far, and the name of the field that is read. -/
inductive Frame where
  | array (items : List Value)
  | object (fields : List (Bytes × Value)) (name : Bytes)

/-- What may come next. `first` stands right after an opening bracket, which may close at once. -/
inductive Expected where
  | value | first | key | colon | after
  deriving DecidableEq, Repr

/-- `value` is the last one that was read outside all brackets. -/
structure Reading where
  stack : List Frame := []
  expected : Expected := .value
  value : Value := .null

namespace Reading

/-- A whole value goes into the innermost open bracket. -/
def put (reading : Reading) (value : Value) : Reading :=
  match reading.stack with
  | [] => { reading with value, expected := .after }
  | .array items :: stack =>
    { reading with stack := .array (items ++ [value]) :: stack, expected := .after }
  | .object fields name :: stack =>
    { reading with stack := .object (setField name value fields) name :: stack, expected := .after }

def enter (reading : Reading) (frame : Frame) : Reading :=
  { reading with stack := frame :: reading.stack, expected := .first }

/-- The reading after one more token, if that may follow. -/
def step (reading : Reading) (token : Token) : Option Reading :=
  match reading.expected, token, reading.stack with
  | .value, .openObject, _ | .first, .openObject, .array _ :: _ =>
    some (reading.enter (.object [] []))
  | .value, .openArray, _ | .first, .openArray, .array _ :: _ => some (reading.enter (.array []))
  | .value, .text text, _ | .first, .text text, .array _ :: _ => some (reading.put (.text text))
  | .value, .scalar value, _ | .first, .scalar value, .array _ :: _ => some (reading.put value)
  | .first, .closeArray, .array items :: stack | .after, .closeArray, .array items :: stack =>
    some ({ reading with stack }.put (.array items))
  | .first, .closeObject, .object fields _ :: stack
  | .after, .closeObject, .object fields _ :: stack =>
    some ({ reading with stack }.put (.object fields))
  | .first, .text name, .object fields _ :: stack | .key, .text name, .object fields _ :: stack =>
    some { reading with stack := .object fields name :: stack, expected := .colon }
  | .colon, .colon, _ => some { reading with expected := .value }
  | .after, .comma, .array _ :: _ => some { reading with expected := .value }
  | .after, .comma, .object _ _ :: _ => some { reading with expected := .key }
  | _, _, _ => none

/-- The value that has been read, if it is whole. -/
def result? (reading : Reading) : Option Value :=
  match reading.stack, reading.expected with
  | [], .after => some reading.value
  | _, _ => none

end Reading

/-- The value that a text writes. -/
def read? (text : Bytes) : Option Value := do
  ((← tokens? text).foldlM Reading.step ({} : Reading)).bind Reading.result?

end Unbundle.Json
