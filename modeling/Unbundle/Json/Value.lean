import Unbundle.Bytes

/-!
JSON values. An object is known by its fields in the order of their names, one of each name.
-/

namespace Unbundle.Json

/-- A number stands for the text that it is written with. -/
inductive Value where
  | null
  | bool (value : Bool)
  | number (text : Bytes)
  | text (text : Bytes)
  | array (items : List Value)
  | object (fields : List (Bytes × Value))
  deriving Inhabited

/-- The fields with one of them set, in its place among the others. -/
def setField (name : Bytes) (value : Value) : List (Bytes × Value) → List (Bytes × Value)
  | [] => [(name, value)]
  | (other, old) :: fields =>
    if name = other then (name, value) :: fields
    else if name < other then (name, value) :: (other, old) :: fields
    else (other, old) :: setField name value fields

namespace Value

/-- What kind of value this is, as messages have it. -/
def kind : Value → String
  | null => "null"
  | bool _ => "boolean"
  | number _ => "number"
  | text _ => "string"
  | array _ => "array"
  | object _ => "object"

/-- A field of an object. Other values have none. -/
def field? (name : String) : Value → Option Value
  | object fields => fields.lookup (utf8 name)
  | _ => none

/-- The object with a field set. Other values stay as they are. -/
def set (whole : Value) (name : Bytes) (value : Value) : Value :=
  match whole with
  | object fields => object (setField name value fields)
  | other => other

end Value

end Unbundle.Json
