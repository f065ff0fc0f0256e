import Unbundle.Bytes

namespace Unbundle

/-- `keep` never replaces a file that was there before the run, `clear` removes the whole output
root first, and `merge` replaces what the run produces and leaves the rest. -/
inductive OverwritePolicy where
  | keep | clear | merge
  deriving DecidableEq, Repr

namespace OverwritePolicy

def name : OverwritePolicy → String
  | keep => "keep"
  | clear => "clearThenWrite"
  | merge => "overwriteMerge"

/-- Each policy by its name, and two of them by a short form. -/
def ofName? (text : Bytes) : Option OverwritePolicy :=
  if text = utf8 "keep" then some keep
  else if text ∈ [utf8 "clearThenWrite", utf8 "clear"] then some clear
  else if text ∈ [utf8 "overwriteMerge", utf8 "merge"] then some merge
  else none

end OverwritePolicy

/-- What became of an offered file. A `duplicate` was offered before with the same content. -/
inductive Outcome where
  | written | duplicate | kept
  deriving DecidableEq, Repr

def Outcome.name : Outcome → String
  | written => "written"
  | duplicate => "duplicate"
  | kept => "kept-existing"

end Unbundle
