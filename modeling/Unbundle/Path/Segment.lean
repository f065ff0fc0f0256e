import Unbundle.Bytes.Ascii

/-!
Paths as segments between slashes. A backslash separates as well wherever a path was written by
another system.
-/

namespace Unbundle.Path

def segments (path : Bytes) : List Bytes := path.splitOn Ascii.slash

def join (parts : List Bytes) : Bytes := [Ascii.slash].intercalate parts

def withSlashes (path : Bytes) : Bytes :=
  path.map fun b => if b = Ascii.backslash then Ascii.slash else b

/-- The segment that stays where it is. -/
def here : Bytes := [Ascii.dot]

/-- The segment that goes one directory up. -/
def up : Bytes := [Ascii.dot, Ascii.dot]

/-- Empty segments and dots lead nowhere, so a path means the same without them. -/
def isIdle (segment : Bytes) : Bool := segment = [] || segment = here

/-- The part after the last slash. -/
def lastSegment (path : Bytes) : Bytes := (segments path).getLastD []

theorem join_segments (path : Bytes) : join (segments path) = path :=
  List.intercalate_splitOn Ascii.slash

theorem segments_join {parts : List Bytes} (plain : ∀ part ∈ parts, Ascii.slash ∉ part)
    (nonempty : parts ≠ []) : segments (join parts) = parts :=
  List.splitOn_intercalate Ascii.slash plain nonempty

end Unbundle.Path
