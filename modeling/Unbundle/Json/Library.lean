import Unbundle.Json.Value

namespace Unbundle.Json

/-- Reading a text, writing a value, and taking a value of the kind that is wanted out of one. Each
may be refused, for a reason that can be shown. -/
structure Library where
  parse : Bytes → Except Bytes Value
  dump : Value → Except Bytes Bytes
  text : Value → Except Bytes Bytes
  texts : Value → Except Bytes (List Bytes)
  word32 : Value → Except Bytes UInt32
  word64 : Value → Except Bytes UInt64
  int32 : Value → Except Bytes Int32

end Unbundle.Json
