import Unbundle.Path.Segment

namespace Unbundle.Path

def dropTrailing (p : UInt8 → Bool) (text : Bytes) : Bytes := (text.reverse.dropWhile p).reverse

/-- The part before the last component, without the slashes between them; the root is its own
directory. -/
def parent (path : Bytes) : Bytes :=
  let before := dropTrailing (· = Ascii.slash) (dropTrailing (· ≠ Ascii.slash) path)
  if before = [] ∧ path.head? = some Ascii.slash then [Ascii.slash] else before

/-- The extension of a file name, from its last dot on. A name that only starts with a dot has
none, and neither have the two directory segments. -/
def extension (fileName : Bytes) : Bytes :=
  if fileName = up then []
  else
    let after := fileName.reverse.takeWhile (· ≠ Ascii.dot)
    if after.length + 1 < fileName.length then Ascii.dot :: after.reverse else []

/-- A path below a directory; an absolute one stands for itself. -/
def below (directory path : Bytes) : Bytes :=
  if path.head? = some Ascii.slash then path
  else if lastSegment directory = [] then directory ++ path
  else directory ++ Ascii.slash :: path

end Unbundle.Path
