import Unbundle.Path.Entry
import Unbundle.Bytes.Word32

/-!
The container layout. A header of thirteen bytes holds the first mark, the lengths of index and
data, and the number of records; then follow the index, the last mark and the data.
-/

namespace Unbundle

inductive ContentKind where
  | markup | style | script | config | binaryAsset
  deriving DecidableEq, Repr

namespace ContentKind

def ofExtension (extension : Bytes) : ContentKind :=
  if extension ∈ [utf8 ".wxml", utf8 ".html"] then markup
  else if extension ∈ [utf8 ".wxss", utf8 ".css"] then style
  else if extension ∈ [utf8 ".js", utf8 ".wxs"] then script
  else if extension = utf8 ".json" then config
  else binaryAsset

/-- The kind of a file by its extension in either case; here a leading dot counts as one. -/
def ofPath (path : Bytes) : ContentKind :=
  let name := Path.lastSegment path
  let after := name.reverse.takeWhile (· ≠ Ascii.dot)
  if after.length < name.length then ofExtension (Ascii.dot :: after.reverse.map Ascii.toLower)
  else binaryAsset

def name : ContentKind → String
  | markup => "markup"
  | style => "style"
  | script => "script"
  | config => "config"
  | binaryAsset => "binary-asset"

end ContentKind

namespace Container

def firstMark : UInt8 := 0xBE

def lastMark : UInt8 := 0xED

def headerLength : Nat := 13

/-- A record with an empty name: three words. -/
def shortestRecord : Nat := 12

/-- A named range of the container; the offset counts from its first byte. -/
structure Entry where
  path : Bytes
  offset : Nat
  length : Nat
  deriving DecidableEq, Repr

namespace Entry

def kind (entry : Entry) : ContentKind := ContentKind.ofPath entry.path

def content (entry : Entry) (bytes : Bytes) : Bytes := (bytes.drop entry.offset).take entry.length

end Entry

end Container

end Unbundle
