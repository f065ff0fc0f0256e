import Unbundle.Proofs.Script.Trace

/-!
What a walk shows its visitor of the code that a scan for the closing brace has met. Main statement:
the words outside templates, as long as no parenthesis opens where the two remember differently what
stands before it.
-/

namespace Unbundle.Script

open Ascii

/-- The pieces outside templates of the code in front of a closing brace, each with the text up to
this brace. -/
def outermost (met : List Met) : List Piece :=
  (met.filter (·.depth = 0)).map fun one => one.piece.withRest one.piece.rest.dropLast

variable {piece : Piece} {met later : List Met} {text rest inside : Bytes}

@[simp] theorem outermost_cons (piece : Piece) (later : List Met) :
    outermost (⟨0, piece⟩ :: later) = piece.withRest piece.rest.dropLast :: outermost later := rfl

@[simp] theorem outermost_raised (count : Nat) (met later : List Met) :
    outermost (raised (count + 1) met ++ later) = outermost later := by
  have deep : (raised (count + 1) met).filter (·.depth = 0) = [] := by
    rw [List.filter_eq_nil_iff]
    intro one member
    obtain ⟨lower, _, rfl⟩ := List.mem_map.mp member
    simp
  rw [outermost, List.filter_append, deep, List.nil_append]
  rfl

def Piece.isMark (b : UInt8) : Piece → Bool
  | .mark c _ => c = b
  | _ => false

/-- What the code up to a place ends with, gaps aside: a word that takes a condition, such a word
and the braces that close behind it, or anything else. -/
inductive Trail where
  | other | condition | closed
  deriving DecidableEq, Repr

namespace Trail

def past (trail : Trail) : Piece → Trail
  | .gap _ => trail
  | .word text _ => if text ∈ Word.takeCondition then condition else other
  | .mark b _ => if b = rightBrace ∧ trail ≠ other then closed else other
  | .literal _ | .template _ | .increment _ => other

/-- No parenthesis opens right behind braces that close behind a word that takes a condition. -/
def steady : Trail → List Piece → Bool
  | _, [] => true
  | trail, piece :: pieces =>
    !(trail = closed && piece.isMark leftParen) && (trail.past piece).steady pieces

theorem steady_append (trail : Trail) (pieces others : List Piece) :
    trail.steady (pieces ++ others) =
      (trail.steady pieces && (pieces.foldl past trail).steady others) := by
  induction pieces generalizing trail with
  | nil => rfl
  | cons piece pieces ih =>
    rw [List.cons_append, steady, steady, ih, Bool.and_assoc, List.foldl_cons]

/-- What a scan remembers and what a walk does. Behind a block the scan still knows of a word that
stood in front of the closing brace, and the walk does not. -/
structure Alike (trail : Trail) (scanned walked : History) : Prop where
  divides : scanned.divides = walked.divides
  openParens : scanned.openParens = walked.openParens
  condition : trail ≠ closed → scanned.afterConditionWord = walked.afterConditionWord
  other : trail = other → scanned.afterConditionWord = false

end Trail

namespace Trail.Alike

variable {trail : Trail} {scanned walked : History}

theorem operand (alike : Alike trail scanned walked) :
    Alike .other scanned.operand walked.operand :=
  ⟨rfl, alike.openParens, fun _ => rfl, fun _ => rfl⟩

theorem operator (alike : Alike trail scanned walked) :
    Alike .other scanned.operator walked.operator :=
  ⟨rfl, alike.openParens, fun _ => rfl, fun _ => rfl⟩

theorem word (alike : Alike trail scanned walked) (text rest : Bytes) :
    Alike (trail.past (.word text rest)) (scanned.word text) (walked.word text) where
  divides := rfl
  openParens := alike.openParens
  condition _ := rfl
  other none := by
    rw [past] at none
    by_cases takes : text ∈ Word.takeCondition
    · rw [if_pos takes] at none
      cases none
    · exact decide_eq_false takes

theorem openParen (alike : Alike trail scanned walked) (steady : trail ≠ .closed) :
    Alike .other scanned.openParen walked.openParen where
  divides := rfl
  openParens := by
    rw [History.openParen, History.openParen, alike.condition steady]
    exact congrArg (walked.afterConditionWord :: ·) alike.openParens
  condition _ := rfl
  other _ := rfl

theorem closeParen (alike : Alike trail scanned walked) :
    Alike .other scanned.closeParen walked.closeParen := by
  have outer : Alike trail { scanned with openParens := walked.openParens.tail }
      { walked with openParens := walked.openParens.tail } :=
    ⟨alike.divides, rfl, alike.condition, alike.other⟩
  rw [History.closeParen, History.closeParen, alike.openParens]
  by_cases condition : walked.openParens.head? = some true
  · rw [if_pos condition, if_pos condition]
    exact outer.operator
  · rw [if_neg condition, if_neg condition]
    exact outer.operand

theorem closeBlock (alike : Alike trail scanned walked) (rest : Bytes) :
    Alike (trail.past (.mark rightBrace rest)) scanned.closeBlock (walked.mark rightBrace) := by
  have other (unclosed : trail.past (.mark rightBrace rest) ≠ .closed) : trail = .other := by
    by_contra different
    exact unclosed (if_pos ⟨rfl, different⟩)
  refine ⟨rfl, alike.openParens, fun unclosed => alike.other (other unclosed), fun none => ?_⟩
  rw [none] at other
  exact alike.other (other nofun)

/-- One piece keeps the two alike. -/
theorem past (alike : Alike trail scanned walked)
    (steady : (trail = .closed && piece.isMark leftParen) = false) :
    Alike (trail.past piece) (scanned.past piece) (walked.after piece) := by
  cases piece with
  | gap rest => exact alike
  | literal rest | template rest | increment rest => exact alike.operand
  | word text rest => exact alike.word text rest
  | mark b rest =>
    rw [History.past]
    by_cases closes : b = rightBrace
    · subst closes
      exact alike.closeBlock rest
    have other : trail.past (.mark b rest) = .other := if_neg fun both => closes both.1
    rw [if_neg closes, other, History.after, History.mark, History.mark]
    by_cases opens : b = leftParen
    · rw [if_pos opens, if_pos opens]
      refine alike.openParen fun closed => ?_
      rw [closed, opens] at steady
      cases steady
    rw [if_neg opens, if_neg opens]
    by_cases ends : b = rightParen
    · rw [if_pos ends, if_pos ends]
      exact alike.closeParen
    rw [if_neg ends, if_neg ends]
    by_cases bracket : b = rightBracket
    · rw [if_pos bracket, if_pos bracket]
      exact alike.operand
    · rw [if_neg bracket, if_neg bracket]
      exact alike.operator

end Trail.Alike

/-- A walk finds nothing in gaps. -/
theorem Visitor.walk_skipGaps {α : Type} (visitor : Visitor α) (afterDot : Bool) (history : History)
    (text : Bytes) :
    visitor.walk afterDot history (skipGaps text) = visitor.walk afterDot history text := by
  fun_induction skipGaps text with
  | case1 text rest blank ih =>
    rw [visitor.walk_gap (Piece.read?_blank blank _), ih]
  | case3 first rest start solid ih =>
    obtain rfl := not_not.mp start
    have gap : Piece.read? history.divides (slash :: slash :: rest) = some (.gap (lineEnd rest)) :=
      Piece.read?_slash solid _
    rw [visitor.walk_gap gap, ih]
  | case4 first rest start after ended solid _ ih =>
    obtain rfl := not_not.mp start
    have gap : Piece.read? history.divides (slash :: star :: rest) = some (.gap after) := by
      rw [Piece.read?_blockComment solid, ended]
      rfl
    rw [visitor.walk_gap gap, ih]
  | case5 first rest start endless solid =>
    obtain rfl := not_not.mp start
    have unread : Piece.read? history.divides (slash :: star :: rest) = none := by
      rw [Piece.read?_blockComment solid, endless]
      rfl
    rw [visitor.walk_nil, visitor.walk_unread unread]
  | case2 | case6 | case7 => rfl

namespace Visitor

variable {α : Type} {visitor : Visitor α} {afterDot : Bool} {history : History}

/-- Wherever the visitor reads on, it passes no word that the walk would have shown. -/
def Lossless (visitor : Visitor α) : Prop :=
  ∀ {afterDot : Bool} {word rest past : Bytes},
    (visitor.visit afterDot word rest).past = some past →
      ∀ history : History,
        visitor.walk false (history.word word) rest = visitor.walk false history.operand past

end Visitor

/-- Whether the next word counts as behind a dot. -/
def Piece.dots (behind : Bool) : Piece → Bool
  | .mark b _ => b = dot
  | .word .. | .increment _ => false
  | .gap _ | .literal _ | .template _ => behind

namespace Visitor

variable {α : Type} {visitor : Visitor α} {afterDot : Bool} {history : History}

/-- What the visitor finds at a piece. -/
def found (visitor : Visitor α) (afterDot : Bool) : Piece → List α
  | .word word rest => (visitor.visit afterDot word rest).found
  | _ => []

/-- What the visitor finds when it is shown each of the pieces. -/
def shown (visitor : Visitor α) : Bool → List Piece → List α
  | _, [] => []
  | afterDot, piece :: pieces =>
    visitor.found afterDot piece ++ visitor.shown (piece.dots afterDot) pieces

theorem mem_shown {item : α} {pieces : List Piece} :
    item ∈ visitor.shown afterDot pieces ↔
      ∃ before word rest after, pieces = before ++ .word word rest :: after ∧
        item ∈ (visitor.visit (before.foldl Piece.dots afterDot) word rest).found := by
  induction pieces generalizing afterDot with
  | nil => simp [shown]
  | cons piece pieces ih =>
    rw [shown, List.mem_append, ih]
    constructor
    · rintro (here | ⟨before, word, rest, after, rfl, there⟩)
      · cases piece with
        | word word rest => exact ⟨[], word, rest, pieces, rfl, here⟩
        | gap | literal | template | increment | mark => cases here
      · exact ⟨piece :: before, word, rest, after, rfl, there⟩
    · rintro ⟨before, word, rest, after, split, finds⟩
      cases before with
      | nil =>
        obtain ⟨rfl, rfl⟩ := List.cons.inj split
        exact .inl finds
      | cons first before =>
        obtain ⟨rfl, rfl⟩ := List.cons.inj split
        exact .inr ⟨before, word, rest, after, rfl, finds⟩

theorem walk_piece (lossless : visitor.Lossless)
    (read : Piece.read? history.divides text = some piece)
    (plain : ∀ rest, piece ≠ .template rest) :
    visitor.walk afterDot history text =
      visitor.found afterDot piece ++
        visitor.walk (piece.dots afterDot) (history.after piece) piece.rest := by
  cases piece with
  | template rest => exact absurd rfl (plain rest)
  | gap | literal | increment | mark => exact visitor.walk_read read
  | word word rest =>
    rw [visitor.walk_word read]
    cases passed : (visitor.visit afterDot word rest).past with
    | none => rfl
    | some past =>
      dsimp only
      rw [← lossless passed history]
      rfl

end Visitor

theorem eq_nil_of_rest_eq_nil {inner : Nat} {history : History}
    (read : Piece.read? history.divides (text ++ [rightBrace]) = some piece)
    (onward : trace (piece.opened inner history) piece.rest = some (later, []))
    (ending : piece.rest = []) : text = [] ∧ piece = .mark rightBrace [] ∧ later = [] := by
  rw [ending] at onward
  cases opened : piece.opened inner history with
  | cons frame outer =>
    rw [opened] at onward
    exact absurd rfl (rest_ne_nil_of_trace onward)
  | nil =>
    rw [opened, trace_nil] at onward
    cases onward
    obtain ⟨rest, rfl⟩ | ⟨_, rest, rfl⟩ | ⟨_, blocks, opens⟩ := piece.opened_cases inner history
    · cases opened
    · obtain rfl : rest = [] := ending
      have whole := Piece.eq_of_read?_mark read
      exact ⟨List.append_cancel_right (whole.trans (List.nil_append _).symm), rfl, rfl⟩
    · cases opened.symm.trans opens

theorem closeFrame_template_of_trace {outer : Frame}
    (traced : trace [.template, outer] (inside ++ [rightBrace]) = some (met, [])) :
    ∃ met₁ met₂ after, met = raised 1 met₁ ++ met₂ ∧ after <:+ inside ∧
      closeFrame .template [] inside = some after ∧
      trace [outer] (after ++ [rightBrace]) = some (met₂, []) := by
  rw [← List.singleton_append, trace_append] at traced
  obtain ⟨⟨met₁, after⟩, within, traced⟩ := Option.bind_eq_some_iff.mp traced
  obtain ⟨⟨met₂, rest⟩, beyond, same⟩ := Option.map_eq_some_iff.mp traced
  cases same
  obtain ⟨front, rfl, suffix⟩ :=
    eq_concat_of_suffix (trace_suffix within) (rest_ne_nil_of_trace beyond)
  obtain ⟨again, without⟩ := trace_of_concat within
  refine ⟨met₁, met₂, front, rfl, suffix, ?_, beyond⟩
  rw [← map_snd_trace, without]
  rfl

/-- The walk shows its visitor the pieces that the scan has met outside templates, one after the
other, as far as the code is steady. -/
theorem walk_eq_shown {α : Type} {visitor : Visitor α} (lossless : visitor.Lossless) {inner : Nat}
    {trail : Trail} {scanned walked : History} (alike : trail.Alike scanned walked)
    {afterDot : Bool} {pieces behind : List Piece}
    (traced : trace [.code inner scanned] (text ++ [rightBrace]) = some (met, []))
    (split : outermost met = pieces ++ behind) (steady : trail.steady pieces = true) :
    ∃ more, visitor.walk afterDot walked text = visitor.shown afterDot pieces ++ more ∧
      (behind = [] → more = []) := by
  -- A template takes the walk past all of its pieces at once, so the induction is on the length.
  induction size : text.length using Nat.strongRecOn
    generalizing text inner trail scanned walked afterDot met pieces with
  | _ size ih =>
    subst size
    obtain ⟨piece, later, read, onward, rfl⟩ := exists_piece_of_trace traced
    rw [List.append_nil] at onward
    rw [List.length_nil, outermost_cons] at split
    cases pieces with
    | nil => exact ⟨_, rfl, fun none => absurd (split.trans none) (List.cons_ne_nil _ _)⟩
    | cons first pieces =>
      obtain ⟨same, others⟩ := List.cons.inj split
      rw [Trail.steady, Bool.and_eq_true, Bool.not_eq_true'] at steady
      by_cases ending : piece.rest = []
      · obtain ⟨rfl, rfl, rfl⟩ := eq_nil_of_rest_eq_nil read onward ending
        obtain ⟨rfl, rfl⟩ := List.nil_eq_append_iff.mp others
        rw [visitor.walk_nil, ← same]
        exact ⟨[], rfl, fun _ => rfl⟩
      -- The walk does not see the closing brace, and reads the same piece without it.
      obtain ⟨inside, cut, _⟩ := eq_concat_of_suffix (Piece.rest_suffix read) ending
      rw [cut, List.dropLast_concat] at same
      have shown := Piece.read?_of_concat read cut
      rw [← Piece.opened_withRest inner scanned piece inside, cut, same] at onward
      rw [alike.divides, same] at shown
      obtain rfl : first.rest = inside := by rw [← same, Piece.rest_withRest]
      have shorter := Piece.length_rest shown
      obtain ⟨rest, rfl⟩ | ⟨rfl, rest, rfl⟩ | ⟨plain, blocks, opened⟩ :=
        first.opened_cases inner scanned
      · obtain ⟨met₁, met₂, after, rfl, suffix, closed, beyond⟩ :=
          closeFrame_template_of_trace onward
        rw [outermost_raised] at others
        obtain ⟨more, walks, whole⟩ := ih after.length
          (Nat.lt_of_le_of_lt suffix.length_le shorter) alike.operand beyond others steady.2 rfl
        rw [visitor.walk_template shown closed, walks]
        exact ⟨more, rfl, whole⟩
      · have none := (Prod.mk.inj (Option.some.inj (onward.symm.trans (trace_nil _)))).2
        exact absurd none.symm (List.append_ne_nil_of_right_ne_nil _ (List.cons_ne_nil _ _))
      · rw [opened] at onward
        obtain ⟨more, walks, whole⟩ :=
          ih _ shorter (alike.past steady.1) onward others steady.2 rfl
        refine ⟨more, ?_, whole⟩
        rw [visitor.walk_piece lossless shown plain, walks, Visitor.shown, List.append_assoc]

end Unbundle.Script
