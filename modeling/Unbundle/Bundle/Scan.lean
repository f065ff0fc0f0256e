import Unbundle.Bundle.CallSite

namespace Unbundle.Bundle

open Script Ascii

/-- A registration call with its place in the bundle, the end being one past its last byte. -/
inductive Item where
  | site (start finish : Nat) (record : ScriptModule)
  | unrecognized (start finish : Nat) (defect : CallSite.Defect)
  deriving DecidableEq

def Item.module? : Item → Option ScriptModule
  | site _ _ record => some record
  | unrecognized .. => none

def Item.defect? : Item → Option CallSite.Defect
  | site .. => none
  | unrecognized _ _ defect => some defect

/-- Finds the calls of the given names in a bundle of the given size. After a call that was
understood the walk goes on behind it, after another one behind its name. -/
def visitor (size : Nat) (names : List Bytes) : Visitor Item where
  visit afterDot word rest :=
    if afterDot || word ∉ names then {}
    else
      match expect? leftParen (skipGaps rest) with
      | none => {}
      | some inside =>
        let start := size - (word.length + rest.length)
        match CallSite.read inside with
        | .ok (record, past) =>
          { found := [.site start (size - past.length) record], past := some past }
        | .error refusal =>
          { found := [.unrecognized start (size - refusal.rest.length) refusal.defect] }
  suffix := by
    intro afterDot word rest past found
    split at found
    · simp at found
    · split at found
      · simp at found
      · next inside opened =>
        split at found
        · next read =>
          cases found
          exact (CallSite.read_suffix read).trans
            ((expect?_suffix opened).trans (skipGaps_suffix rest))
        · simp at found

/-- Every registration call of a bundle in order, understood or not. -/
def scan (names : List Bytes) (text : Bytes) : List Item := (visitor text.length names).run text

/-- The modules of a bundle, and the calls that were not understood. -/
structure Split where
  modules : List ScriptModule
  skipped : List Item

/-- Without any module, a bundle is kept as it stands. -/
def Split.fallback (split : Split) : Bool := split.modules.isEmpty

def split (names : List Bytes) (text : Bytes) : Split where
  modules := (scan names text).filterMap Item.module?
  skipped := (scan names text).filter fun item => item.module?.isNone

end Unbundle.Bundle
