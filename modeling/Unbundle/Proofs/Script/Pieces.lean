import Unbundle.Proofs.Script.Places
import Unbundle.Script.Balance

/-!
Scanning code by place, piece by piece. Main statement: closing a frame or a parenthesis neither
fails nor goes on for ever, and comes to where the rest begins that closing it at the front leaves.
-/

namespace Unbundle.Script

open Ascii

/-- A piece without the text after it. -/
inductive Token where
  | gap | literal | template | increment
  | word (text : Bytes)
  | mark (byte : UInt8)
  deriving DecidableEq

namespace Piece

private theorem ofSlash_ne_word (divides : Bool) (text word after : Bytes) :
    ofSlash divides text ≠ some (.word word after) := by
  rw [ofSlash]
  split
  · simp
  · split
    · cases blockEnd? text.tail <;> simp
    · cases divides <;> cases skipRegex false text <;> simp

/-- A word is found whole. -/
theorem split_of_read?_word {divides : Bool} {text word after : Bytes}
    (read : read? divides text = some (.word word after)) : Word.split text = (word, after) := by
  cases text with
  | nil => simp [read?] at read
  | cons b rest =>
    simp only [read?] at read
    split at read
    · cases read
    · split at read
      · obtain ⟨_, _, impossible⟩ := Option.map_eq_some_iff.mp read
        cases impossible
      · split at read
        · cases read
        · split at read
          · exact (ofSlash_ne_word _ _ _ _ read).elim
          · split at read
            · cases read
              rfl
            · split at read <;> cases read

/-- A word begins where it is found. -/
theorem append_of_read?_word {divides : Bool} {text word after : Bytes}
    (read : read? divides text = some (.word word after)) : word ++ after = text := by
  have whole := Word.split_append text
  rwa [split_of_read?_word read] at whole

@[simp]
def token : Piece → Token
  | gap _ => .gap
  | literal _ => .literal
  | template _ => .template
  | word text _ => .word text
  | increment _ => .increment
  | mark b _ => .mark b

/-- A piece as it is found by place. -/
@[simp]
def located (text : Bytes) (piece : Piece) : Token × Nat := (piece.token, placeOf text piece.rest)

end Piece

/-- What is remembered past a token. -/
def History.note (history : History) : Token → History
  | .gap => history
  | .literal | .template | .increment => history.operand
  | .word text => history.word text
  | .mark b => history.mark b

theorem History.after_eq (history : History) (piece : Piece) :
    history.after piece = history.note piece.token := by cases piece <;> rfl

namespace Guarded

variable {text rest : Bytes} {b : UInt8}

/-- What a slash begins whose following place is given. -/
def readSlash (text : Bytes) (divides : Bool) (place : Nat) : OptionT Guarded (Token × Nat) := do
  if ← sees text slash place then return (.gap, ← lineEnd text place)
  else if ← sees text star place then return (.gap, ← blockEnd text (place + 1))
  else if divides then return (.mark slash, place)
  else
    match ← attempt (skipRegex text false place) with
    | some past => return (.literal, past)
    | none => return (.mark slash, place)

private theorem readSlash_eq (inside : rest <:+ text) (divides : Bool) :
    readSlash text divides (placeOf text rest) =
      searched ((Piece.ofSlash divides rest).map (Piece.located text)) := by
  rw [readSlash, sees_eq inside, sees_eq inside, lift_some, pure_bind, Piece.ofSlash, lineEnd_eq inside,
    skipRegex_eq inside]
  by_cases line : rest.head? = some slash
  · simp [line, Piece.rest]
  by_cases block : rest.head? = some star
  · cases rest with
    | nil => cases block
    | cons b rest =>
      obtain rfl : b = star := Option.some.inj block
      rw [placeOf_cons inside, blockEnd_eq (suffix_of_cons inside)]
      cases ended : blockEnd? rest <;>
        simp +decide [ended, Piece.rest]
  · cases divides with
    | true => simp [line, block, Piece.rest]
    | false =>
      cases regex : Script.skipRegex false rest <;>
        simp [line, block, Piece.rest]

/-- The piece at a place. -/
def readPiece (text : Bytes) (divides : Bool) (place : Nat) : OptionT Guarded (Token × Nat) := do
  if place < text.length then
    let b ← byte text place
    let width ← blankLength text place
    if width ≠ 0 then return (.gap, place + width)
    else if isQuote b then return (.literal, ← skipQuoted text b (place + 1))
    else if b = backtick then return (.template, place + 1)
    else if b = slash then readSlash text divides (place + 1)
    else if Word.isPart b then
      let finish ← wordEnd text place
      return (.word (← part text place finish), finish)
    else if divides ∧ (b = plus ∨ b = minus) ∧ (← sees text b (place + 1)) then
      return (.increment, place + 2)
    else return (.mark b, place + 1)
  else failure

theorem readPiece_eq (inside : rest <:+ text) (divides : Bool) :
    readPiece text divides (placeOf text rest) =
      searched ((Piece.read? divides rest).map (Piece.located text)) := by
  cases rest with
  | nil =>
    rw [readPiece, if_neg (not_placeOf_nil_lt text)]
    rfl
  | cons b rest =>
    have behind := suffix_of_cons inside
    rw [readPiece, if_pos (placeOf_lt inside), byte_eq inside, blankLength_eq inside, lift_some,
      pure_bind, lift_some, pure_bind, placeOf_cons inside, skipQuoted_eq behind,
      readSlash_eq behind, wordEnd_eq inside, sees_eq behind, Piece.read?]
    cases blank : blank? (b :: rest) with
    | some after =>
      have wide : blankWidth (b :: rest) ≠ 0 := by simp [blankWidth_eq_zero, isBlank, blank]
      simp [wide, Piece.rest, placeOf_blank inside blank]
    | none =>
      have narrow : blankWidth (b :: rest) = 0 := by simp [blankWidth_eq_zero, isBlank, blank]
      simp only [narrow, ne_eq, not_true_eq_false, if_false]
      by_cases quote : isQuote b = true
      · cases Script.skipQuoted b rest <;>
          simp [quote, Piece.rest]
      by_cases template : b = backtick
      · simp +decide [template, Piece.rest]
      by_cases slash : b = slash
      · simp +decide [slash]
      by_cases word : Word.isPart b = true
      · simp [quote, template, slash, word, part_eq inside (Word.split_append (b :: rest)),
          Piece.rest]
      by_cases increment : divides = true ∧ (b = plus ∨ b = minus) ∧ rest.head? = some b
      · cases rest with
        | nil => cases increment.2.2
        | cons c rest =>
          simp [quote, template, slash, word, increment, Piece.rest,
            placeOf_cons_cons inside]
      · simp [quote, template, slash, word, increment, Piece.rest]

/-- The end of the literal part of a template, and whether an expression begins there. -/
def templateStop (text : Bytes) (place : Nat) : OptionT Guarded (Bool × Nat) :=
  letI again : Bytes → Nat → OptionT Guarded (Bool × Nat) := by exact templateStop
  do
  if place < text.length then
    let b ← byte text place
    if b = backslash then again text (place + 2)
    else if b = backtick then return (false, place + 1)
    else if b = dollar ∧ (← sees text leftBrace (place + 1)) then return (true, place + 2)
    else again text (place + 1)
  else failure
partial_fixpoint

end Guarded

def TemplateStop.located (text : Bytes) : TemplateStop → Bool × Nat
  | closed rest => (false, placeOf text rest)
  | expression rest => (true, placeOf text rest)

namespace Guarded

variable {text rest : Bytes} {b : UInt8}

private theorem templateStop_behind {place : Nat} (behind : text.length ≤ place) :
    templateStop text place = failure := by
  rw [templateStop, if_neg (Nat.not_lt.mpr behind)]

private theorem templateStop_step (inside : b :: rest <:+ text) :
    templateStop text (placeOf text (b :: rest)) =
      if b = backslash then templateStop text (placeOf text rest + 1)
      else if b = backtick then pure (false, placeOf text rest)
      else if b = dollar ∧ rest.head? = some leftBrace then pure (true, placeOf text rest + 1)
      else templateStop text (placeOf text rest) := by
  rw [templateStop, if_pos (placeOf_lt inside), byte_eq inside, lift_some, pure_bind,
    placeOf_cons inside, sees_eq (suffix_of_cons inside), ← placeOf_cons inside]
  simp

private theorem templateStop_eq (inside : rest <:+ text) :
    templateStop text (placeOf text rest) =
      searched ((templateStop? rest).map (TemplateStop.located text)) := by
  fun_induction templateStop? rest with
  | case1 => exact templateStop_behind (Nat.le_refl _)
  | case2 => simp [templateStop_step inside, templateStop_behind, placeOf_nil]
  | case3 c rest ih =>
    have behind := suffix_of_cons inside
    simp [templateStop_step inside, placeOf_cons behind, ih (suffix_of_cons behind)]
  | case4 => simp +decide [templateStop_step inside, TemplateStop.located]
  | case5 b rest plain other opens =>
    cases rest with
    | nil => cases opens.2
    | cons c rest =>
      rw [templateStop_step inside, if_neg plain, if_neg other, if_pos opens,
        placeOf_cons (suffix_of_cons inside)]
      rfl
  | case6 b rest plain other opens ih =>
    simpa [templateStop_step inside, plain, other, opens] using ih (suffix_of_cons inside)

/-- The place after the delimiter that closes a frame. -/
def closeFrame (text : Bytes) (frame : Frame) (outer : List Frame) (place : Nat) :
    OptionT Guarded Nat :=
  letI again : Bytes → Frame → List Frame → Nat → OptionT Guarded Nat := by exact closeFrame
  do
  match frame with
  | .template =>
    let (opens, past) ← templateStop text place
    if opens then again text .start (.template :: outer) past
    else
      match outer with
      | [] => return past
      | next :: outer => again text next outer past
  | .code inner history =>
    match ← readPiece text history.divides place with
    | (.template, past) => again text .template (.code inner history.operand :: outer) past
    | (.mark b, past) =>
      if b = leftBrace then again text (.code (inner + 1) (history.mark b)) outer past
      else if b = rightBrace then
        match inner with
        | inner + 1 => again text (.code inner history.closeBlock) outer past
        | 0 =>
          match outer with
          | [] => return past
          | next :: outer => again text next outer past
      else again text (.code inner (history.mark b)) outer past
    | (token, past) => again text (.code inner (history.note token)) outer past
partial_fixpoint

theorem closeFrame_eq {frame : Frame} {outer : List Frame} (inside : rest <:+ text) :
    closeFrame text frame outer (placeOf text rest) =
      searched ((Script.closeFrame frame outer rest).map (placeOf text)) := by
  fun_induction Script.closeFrame frame outer rest with
  | case1 outer rest unstopped =>
    rw [closeFrame]
    simp [templateStop_eq inside, unstopped]
  | case2 outer rest after stop ih =>
    have onward := ih ((templateStop?_suffix stop).trans inside)
    rw [closeFrame]
    simp [templateStop_eq inside, stop, TemplateStop.located, onward]
  | case3 rest after stop =>
    rw [closeFrame]
    simp [templateStop_eq inside, stop, TemplateStop.located]
  | case4 rest after stop next outer ih =>
    have onward := ih ((templateStop?_suffix stop).trans inside)
    rw [closeFrame]
    simp [templateStop_eq inside, stop, TemplateStop.located, onward]
  | case5 outer rest inner history unread =>
    rw [closeFrame]
    simp [readPiece_eq inside, unread]
  | case6 outer rest inner history after read ih =>
    have onward := ih ((Piece.rest_suffix read).trans inside)
    rw [closeFrame]
    simp [readPiece_eq inside, read, Piece.rest, onward]
  | case7 outer rest inner history after read ih =>
    have onward := ih ((Piece.rest_suffix read).trans inside)
    rw [closeFrame]
    simp [readPiece_eq inside, read, Piece.rest, onward]
  | case8 outer rest history after inner read differs ih =>
    have onward := ih ((Piece.rest_suffix read).trans inside)
    rw [closeFrame]
    simp [readPiece_eq inside, read, Piece.rest, differs, onward]
  | case9 rest history after read differs =>
    rw [closeFrame]
    simp [readPiece_eq inside, read, Piece.rest, differs]
  | case10 rest history after next outer read differs ih =>
    have onward := ih ((Piece.rest_suffix read).trans inside)
    rw [closeFrame]
    simp [readPiece_eq inside, read, Piece.rest, differs, onward]
  | case11 outer rest inner history b after read noOpen noClose ih =>
    have onward := ih ((Piece.rest_suffix read).trans inside)
    rw [closeFrame]
    simp [readPiece_eq inside, read, Piece.rest, noOpen, noClose, onward]
  | case12 outer rest inner history piece noTemplate noMark read ih =>
    have onward := ih ((Piece.rest_suffix read).trans inside)
    rw [closeFrame]
    cases piece with
    | template after => exact (noTemplate after rfl).elim
    | mark b after => exact (noMark b after rfl).elim
    | gap | literal | word | increment =>
      simpa [readPiece_eq inside, read, History.after_eq, Piece.rest]
        using onward

/-- The place after the parenthesis that closes the outermost one the history holds. -/
def closeParens (text : Bytes) (history : History) (place : Nat) : OptionT Guarded Nat :=
  letI again : Bytes → History → Nat → OptionT Guarded Nat := by exact closeParens
  do
  match ← readPiece text history.divides place with
  | (.template, past) =>
    again text history.operand (← closeFrame text .template [] past)
  | (.mark b, past) =>
    if b = leftBrace then
      again text history.blockValue (← closeFrame text .start [] past)
    else if b = rightParen ∧ history.openParens.length = 1 then return past
    else again text (history.mark b) past
  | (token, past) => again text (history.note token) past
partial_fixpoint

theorem closeParens_eq {history : History} (inside : rest <:+ text) :
    closeParens text history (placeOf text rest) =
      searched ((Script.closeParens history rest).map (placeOf text)) := by
  fun_induction Script.closeParens history rest with
  | case1 history rest unread =>
    rw [closeParens]
    simp [readPiece_eq inside, unread]
  | case2 history rest after read unclosed =>
    have behind : after <:+ text := (Piece.rest_suffix read).trans inside
    rw [closeParens]
    simp [readPiece_eq inside, read, Piece.rest,
      closeFrame_eq behind, unclosed]
  | case3 history rest after read past closed ih =>
    have behind : after <:+ text := (Piece.rest_suffix read).trans inside
    have onward := ih ((closeFrame_suffix closed).trans behind)
    rw [closeParens]
    simp [readPiece_eq inside, read, Piece.rest,
      closeFrame_eq behind, closed, onward]
  | case4 history rest after unclosed read =>
    have behind : after <:+ text := (Piece.rest_suffix read).trans inside
    rw [closeParens]
    simp [readPiece_eq inside, read, Piece.rest,
      closeFrame_eq behind, unclosed]
  | case5 history rest after past closed read ih =>
    have behind : after <:+ text := (Piece.rest_suffix read).trans inside
    have onward := ih ((closeFrame_suffix closed).trans behind)
    rw [closeParens]
    simp [readPiece_eq inside, read, Piece.rest,
      closeFrame_eq behind, closed, onward]
  | case6 history rest b after read noOpen closes =>
    rw [closeParens]
    simp +decide [readPiece_eq inside, read, Piece.rest, closes]
  | case7 history rest b after read noOpen noClose ih =>
    have onward := ih ((Piece.rest_suffix read).trans inside)
    rw [closeParens]
    simp [readPiece_eq inside, read, Piece.rest, noOpen, noClose, onward]
  | case8 history rest piece noTemplate noMark read ih =>
    have onward := ih ((Piece.rest_suffix read).trans inside)
    rw [closeParens]
    cases piece with
    | template after => exact (noTemplate after rfl).elim
    | mark b after => exact (noMark b after rfl).elim
    | gap | literal | word | increment =>
      simpa [readPiece_eq inside, read, History.after_eq, Piece.rest]
        using onward

end Guarded

end Unbundle.Script
