import Unbundle.Path.Segment

/-!
Module specifiers: how a module names another one. A specifier that starts with a dot segment is
taken from the directory of the requiring module, any other one from the root of the package.
-/

namespace Unbundle.Specifier

open Unbundle.Path

def isRelative (specifier : Bytes) : Bool :=
  (here ++ [Ascii.slash]).isPrefixOf specifier || (up ++ [Ascii.slash]).isPrefixOf specifier

/-- The directory of a module with its closing slash; empty at the root. -/
def directoryOf (path : Bytes) : Bytes :=
  path.take (path.length - (lastSegment path).length)

/-- One step of the walk, the deepest directory first; the root has no way up. -/
def step (trail : List Bytes) (segment : Bytes) : List Bytes :=
  if isIdle segment then trail
  else if segment = up then trail.tail
  else segment :: trail

def walk (path : Bytes) : List Bytes := ((segments path).foldl step []).reverse

/-- The module that a specifier names, with the script extension where it has none. -/
def resolve (requiring specifier : Bytes) : Bytes :=
  let written := if isRelative specifier then directoryOf requiring ++ specifier else specifier
  let parts := walk (withSlashes written)
  match parts.getLast? with
  | none => []
  | some last => if Ascii.dot ∈ last then join parts else join parts ++ utf8 ".js"

end Unbundle.Specifier
