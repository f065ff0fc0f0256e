import Unbundle.Bytes.Ascii

namespace Unbundle

/-- How a line is marked. A `plain` line carries no mark and is no part of the progress. -/
inductive Level where
  | info | done | warning | error | plain
  deriving DecidableEq, Repr

namespace Level

def mark : Level → Bytes
  | info => utf8 " ▶ "
  | done => utf8 " ✅ "
  | warning => utf8 " ⚠️  "
  | error => utf8 " ❌ "
  | plain => []

/-- Progress, which goes to the standard output and can be silenced. -/
def isProgress : Level → Bool
  | info | done => true
  | warning | error | plain => false

end Level

structure Line where
  level : Level
  text : Bytes
  deriving DecidableEq, Repr

def Line.render (line : Line) : Bytes := line.level.mark ++ line.text ++ [Ascii.newline]

structure Journal where
  quiet : Bool := false
  lines : List Line := []
  deriving DecidableEq, Repr

namespace Journal

def log (journal : Journal) (level : Level) (text : Bytes) : Journal :=
  if journal.quiet && level.isProgress then journal
  else { journal with lines := journal.lines ++ [⟨level, text⟩] }

def standardOutput (journal : Journal) : Bytes :=
  (journal.lines.filter fun line => line.level.isProgress).flatMap Line.render

def standardError (journal : Journal) : Bytes :=
  (journal.lines.filter fun line => !line.level.isProgress).flatMap Line.render

end Journal

end Unbundle
