import Unbundle.Script.Factory
import Unbundle.Script.Walk

namespace Unbundle.Script

open Ascii

theorem skipRegex_cons {b : UInt8} (plain : b ≠ backslash) (inClass : Bool) (rest : Bytes) :
    skipRegex inClass (b :: rest) =
      if b = newline ∨ b = carriageReturn then none
      else if inClass then skipRegex (b ≠ rightBracket) rest
      else if b = slash then some (Word.split rest).2
      else skipRegex (b = leftBracket) rest := by
  cases rest <;> simp [skipRegex, plain]

theorem skipQuoted_cons {quote b : UInt8} (plain : b ≠ backslash) (rest : Bytes) :
    skipQuoted quote (b :: rest) = if b = quote then some rest else skipQuoted quote rest := by
  cases rest <;> simp [skipQuoted, plain]

theorem templateStop?_cons {b : UInt8} (plain : b ≠ backslash) (rest : Bytes) :
    templateStop? (b :: rest) =
      if b = backtick then some (.closed rest)
      else if b = dollar ∧ rest.head? = some leftBrace then some (.expression rest.tail)
      else templateStop? rest := by
  cases rest <;> simp [templateStop?, plain]

namespace Literal

theorem read?_cons {quote b : UInt8} (plain : b ≠ backslash) (rest : Bytes) :
    read? quote (b :: rest) =
      if b = quote then some ([], rest)
      else if b = newline then none
      else (read? quote rest).map fun (spelled, after) => (b :: spelled, after) := by
  rw [read?.eq_def]
  simp only [plain, if_false]

theorem read?_escape {quote : UInt8} (plain : quote ≠ backslash) (letter : UInt8) (rest : Bytes) :
    read? quote (backslash :: letter :: rest) =
      (read? quote (escape letter rest).2).map fun (spelled, after) =>
        ((escape letter rest).1 ++ spelled, after) := by
  have noBreak : backslash ≠ newline := by decide
  rw [read?.eq_def]
  simp only [plain.symm, noBreak, if_false, if_true]

end Literal

/-- How a scan of code goes on after a piece. -/
def resume (inner : Nat) (history : History) (outer : List Frame) : Piece → Option Bytes
  | .template rest => closeFrame .template (.code inner history.operand :: outer) rest
  | .mark b rest =>
    if b = leftBrace then closeFrame (.code (inner + 1) (history.mark b)) outer rest
    else if b = rightBrace then
      match inner, outer with
      | inner + 1, _ => closeFrame (.code inner history.closeBlock) outer rest
      | 0, [] => some rest
      | 0, next :: outer => closeFrame next outer rest
    else closeFrame (.code inner (history.mark b)) outer rest
  | piece => closeFrame (.code inner (history.after piece)) outer piece.rest

theorem closeFrame_code {inner : Nat} {history : History} {outer : List Frame} {text : Bytes}
    {piece : Piece} (read : Piece.read? history.divides text = some piece) :
    closeFrame (.code inner history) outer text = resume inner history outer piece := by
  rw [closeFrame]
  split
  · next unread => cases read.symm.trans unread
  · next found => cases read.symm.trans found; rfl
  · next found =>
    cases read.symm.trans found
    simp only [resume]
    split
    · rfl
    · split
      · cases inner <;> cases outer <;> rfl
      · rfl
  · next noTemplate noMark found =>
    cases read.symm.trans found
    cases piece with
    | template rest => exact absurd rfl (noTemplate rest)
    | mark b rest => exact absurd rfl (noMark b rest)
    | gap | literal | word | increment => rfl

/-- The first bytes of all blanks. -/
def blankStarts : Bytes := blanks.filterMap List.head?

/-- Whether a gap may begin with a byte: a blank does, or a comment. -/
def startsGap (b : UInt8) : Bool := b ∈ blankStarts || b = slash

theorem blank?_cons {b : UInt8} (solid : startsGap b = false) (rest : Bytes) :
    blank? (b :: rest) = none := by
  simp only [startsGap, Bool.or_eq_false_iff, decide_eq_false_iff_not] at solid
  cases found : blank? (b :: rest) with
  | none => rfl
  | some after =>
    obtain ⟨spelling, member, same⟩ := blank?_eq_some found
    have nonempty := length_of_mem_blanks member
    cases spelling with
    | nil => simp at nonempty
    | cons c spelling =>
      obtain ⟨rfl, _⟩ := List.cons.inj same
      have start : b ∈ blankStarts := List.mem_filterMap.mpr ⟨b :: spelling, member, rfl⟩
      exact absurd start solid.1

theorem skipGaps_cons {b : UInt8} (solid : startsGap b = false) (rest : Bytes) :
    skipGaps (b :: rest) = b :: rest := by
  have blank := blank?_cons solid rest
  simp only [startsGap, Bool.or_eq_false_iff, decide_eq_false_iff_not] at solid
  rw [skipGaps]
  split
  · next found => cases blank.symm.trans found
  · cases rest <;> simp [solid.2]

theorem skipGaps_blank {text rest : Bytes} (found : blank? text = some rest) :
    skipGaps text = skipGaps rest := by
  rw [skipGaps]
  split
  · next blank => cases found.symm.trans blank; rfl
  · next unblank => cases found.symm.trans unblank

theorem skipGaps_space (rest : Bytes) : skipGaps (space :: rest) = skipGaps rest :=
  skipGaps_blank rfl

/-- Whether a byte always stands for itself: nothing longer begins with it. -/
def isSingle (b : UInt8) : Bool :=
  !startsGap b && !isQuote b && !Word.isPart b && b ∉ [backtick, plus, minus]

theorem Piece.read?_mark {b : UInt8} (single : isSingle b = true) (divides : Bool) (rest : Bytes) :
    read? divides (b :: rest) = some (mark b rest) := by
  simp only [isSingle, Bool.and_eq_true, Bool.not_eq_true', decide_eq_true_eq, List.mem_cons,
    List.not_mem_nil, or_false, not_or] at single
  obtain ⟨⟨⟨solid, noQuote⟩, noWord⟩, noBacktick, noPlus, noMinus⟩ := single
  have noSlash : b ≠ slash := by
    simp only [startsGap, Bool.or_eq_false_iff, decide_eq_false_iff_not] at solid
    exact solid.2
  simp [read?, blank?_cons solid, noQuote, noBacktick, noSlash, noWord, noPlus, noMinus]

theorem Piece.read?_blank {text after : Bytes} (found : blank? text = some after) (divides : Bool) :
    read? divides text = some (.gap after) := by
  cases text with
  | nil => cases found
  | cons b text => rw [read?, found]

theorem Piece.read?_slash {rest : Bytes} (solid : blank? (slash :: rest) = none) (divides : Bool) :
    read? divides (slash :: rest) = ofSlash divides rest := by
  rw [read?, solid]
  rfl

theorem Piece.read?_blockComment {rest : Bytes} (solid : blank? (slash :: star :: rest) = none)
    (divides : Bool) :
    read? divides (slash :: star :: rest) = (blockEnd? rest).map gap :=
  read?_slash solid divides

theorem Piece.read?_quote {quote : UInt8} (quotes : isQuote quote = true) (divides : Bool)
    (rest : Bytes) :
    read? divides (quote :: rest) = (skipQuoted quote rest).map literal := by
  have solid : startsGap quote = false := by
    simp only [isQuote, Bool.or_eq_true, decide_eq_true_eq] at quotes
    rcases quotes with rfl | rfl <;> rfl
  rw [read?, blank?_cons solid]
  exact if_pos quotes

theorem closeParens_mark {history : History} {text rest : Bytes} {b : UInt8}
    (read : Piece.read? history.divides text = some (.mark b rest)) (plain : b ≠ leftBrace) :
    closeParens history text =
      if b = rightParen ∧ history.openParens.length = 1 then some rest
      else closeParens (history.mark b) rest := by
  rw [closeParens]
  split
  · next unread => cases read.symm.trans unread
  · next found => cases read.symm.trans found
  · next found =>
    cases read.symm.trans found
    rw [if_neg plain]
  · next noTemplate noMark found =>
    cases read.symm.trans found
    exact absurd rfl (noMark _ _)

namespace Visitor

variable {α : Type} (visitor : Visitor α) {afterDot : Bool} {history : History} {text rest : Bytes}

theorem walk_nil : visitor.walk afterDot history [] = [] := by
  rw [walk]
  rfl

theorem walk_unread (unread : Piece.read? history.divides text = none) :
    visitor.walk afterDot history text = [] := by
  rw [walk]
  split
  · rfl
  all_goals next found => cases unread.symm.trans found

/-- How a walk goes on at a piece. -/
def onward (visitor : Visitor α) (afterDot : Bool) (history : History) : Piece → List α
  | .template rest =>
    match closeFrame .template [] rest with
    | none => []
    | some after => visitor.walk afterDot history.operand after
  | .word word rest =>
    (visitor.visit afterDot word rest).found ++
      match (visitor.visit afterDot word rest).past with
      | some past => visitor.walk false history.operand past
      | none => visitor.walk false (history.word word) rest
  | .increment rest => visitor.walk false history.operand rest
  | .mark b rest => visitor.walk (b = dot) (history.mark b) rest
  | piece => visitor.walk afterDot (history.after piece) piece.rest

theorem walk_read {piece : Piece} (read : Piece.read? history.divides text = some piece) :
    visitor.walk afterDot history text = visitor.onward afterDot history piece := by
  rw [walk]
  split
  · next unread => cases read.symm.trans unread
  · next found =>
    cases read.symm.trans found
    rw [onward]
    split <;> next closed => rw [closed]
  · next found =>
    cases read.symm.trans found
    rw [onward]
    split <;> next past => rw [past]
  · next found => cases read.symm.trans found; rfl
  · next found => cases read.symm.trans found; rfl
  · next noTemplate noWord noIncrement noMark found =>
    cases read.symm.trans found
    cases piece with
    | template rest => exact absurd rfl (noTemplate rest)
    | word word rest => exact absurd rfl (noWord word rest)
    | increment rest => exact absurd rfl (noIncrement rest)
    | mark b rest => exact absurd rfl (noMark b rest)
    | gap | literal => rfl

theorem walk_word {word : Bytes}
    (read : Piece.read? history.divides text = some (.word word rest)) :
    visitor.walk afterDot history text =
      (visitor.visit afterDot word rest).found ++
        match (visitor.visit afterDot word rest).past with
        | some past => visitor.walk false history.operand past
        | none => visitor.walk false (history.word word) rest :=
  visitor.walk_read read

theorem walk_mark {b : UInt8} (read : Piece.read? history.divides text = some (.mark b rest)) :
    visitor.walk afterDot history text = visitor.walk (b = dot) (history.mark b) rest :=
  visitor.walk_read read

theorem walk_gap (read : Piece.read? history.divides text = some (.gap rest)) :
    visitor.walk afterDot history text = visitor.walk afterDot history rest :=
  visitor.walk_read read

theorem walk_literal (read : Piece.read? history.divides text = some (.literal rest)) :
    visitor.walk afterDot history text = visitor.walk afterDot history.operand rest :=
  visitor.walk_read read

theorem walk_template {after : Bytes}
    (read : Piece.read? history.divides text = some (.template rest))
    (closed : closeFrame .template [] rest = some after) :
    visitor.walk afterDot history text = visitor.walk afterDot history.operand after := by
  rw [visitor.walk_read read, onward, closed]

end Visitor

end Unbundle.Script
