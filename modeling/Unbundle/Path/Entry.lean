import Unbundle.Path.Segment

/-!
The canonical form of a name inside a package: relative, with slashes, without idle segments,
and never leaving the directory it is unpacked into.
-/

namespace Unbundle.Path

/-- A path is canonical when its segments are all proper names. -/
def Canonical (path : Bytes) : Prop :=
  Ascii.backslash ∉ path ∧ ∀ segment ∈ segments path, isIdle segment = false ∧ segment ≠ up

instance (path : Bytes) : Decidable (Canonical path) := inferInstanceAs (Decidable (_ ∧ _))

/-- The canonical form of a name, if it names something and does not go up. -/
def canonical? (name : Bytes) : Option Bytes :=
  let parts := (segments (withSlashes name)).filter fun segment => !isIdle segment
  if parts = [] ∨ up ∈ parts then none else some (join parts)

end Unbundle.Path
