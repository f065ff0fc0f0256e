import Unbundle.Script.Piece

namespace Unbundle.Script

open Ascii

/-- Where the literal part of a template ends: at the closing backtick, or at the opening of an
expression. -/
inductive TemplateStop where
  | closed (rest : Bytes)
  | expression (rest : Bytes)
  deriving DecidableEq, Repr

def TemplateStop.rest : TemplateStop → Bytes
  | closed rest | expression rest => rest

def templateStop? : Bytes → Option TemplateStop
  | [] => none
  | b :: rest =>
    if b = backslash then
      match rest with
      | [] => none
      | _ :: after => templateStop? after
    else if b = backtick then some (.closed rest)
    else if b = dollar ∧ rest.head? = some leftBrace then some (.expression rest.tail)
    else templateStop? rest

private theorem templateStop?_append {text : Bytes} {stop : TemplateStop}
    (found : templateStop? text = some stop) :
    ∃ taken, taken ≠ [] ∧ text = taken ++ stop.rest := by
  fun_induction templateStop? text with
  | case1 | case2 => simp at found
  | case3 b after ih =>
    obtain ⟨taken, _, same⟩ := ih found
    exact ⟨backslash :: b :: taken, by simp, by simp [← same]⟩
  | case4 => cases found; exact ⟨[_], by simp, rfl⟩
  | case5 b tail _ _ opens =>
    cases found
    obtain ⟨c, after, rfl⟩ : ∃ c after, tail = c :: after := by
      cases tail with
      | nil => simp at opens
      | cons c after => exact ⟨c, after, rfl⟩
    exact ⟨[_, c], by simp, rfl⟩
  | case6 b tail _ _ _ ih =>
    obtain ⟨taken, _, same⟩ := ih found
    exact ⟨b :: taken, by simp, by simp [← same]⟩

theorem templateStop?_suffix {text : Bytes} {stop : TemplateStop}
    (found : templateStop? text = some stop) : stop.rest <:+ text := by
  obtain ⟨taken, _, rfl⟩ := templateStop?_append found
  exact List.suffix_append _ _

theorem length_templateStop? {text : Bytes} {stop : TemplateStop}
    (found : templateStop? text = some stop) : stop.rest.length < text.length := by
  obtain ⟨taken, nonempty, rfl⟩ := templateStop?_append found
  have := List.length_pos_iff.mpr nonempty
  rw [List.length_append]; omega

/-- What is open: the literal part of a template, or code with a number of blocks opened inside
it. -/
inductive Frame where
  | template
  | code (inner : Nat) (history : History)
  deriving DecidableEq, Repr

namespace Frame

/-- Code right after its opening brace. -/
def start : Frame := .code 0 .block

end Frame

/-- The text after the delimiter that closes the frame, all inner ones having been closed before.
The outer frames are resumed in turn. -/
def closeFrame (frame : Frame) (outer : List Frame) (text : Bytes) : Option Bytes :=
  match frame with
  | .template =>
    match _stop : templateStop? text with
    | none => none
    | some (.expression rest) => closeFrame .start (.template :: outer) rest
    | some (.closed rest) =>
      match outer with
      | [] => some rest
      | next :: outer => closeFrame next outer rest
  | .code inner history =>
    match _read : Piece.read? history.divides text with
    | none => none
    | some (.template rest) =>
      closeFrame .template (.code inner history.operand :: outer) rest
    | some (.mark b rest) =>
      if b = leftBrace then closeFrame (.code (inner + 1) (history.mark b)) outer rest
      else if b = rightBrace then
        match inner with
        | inner + 1 => closeFrame (.code inner history.closeBlock) outer rest
        | 0 =>
          match outer with
          | [] => some rest
          | next :: outer => closeFrame next outer rest
      else closeFrame (.code inner (history.mark b)) outer rest
    | some piece => closeFrame (.code inner (history.after piece)) outer piece.rest
termination_by text.length
decreasing_by
  all_goals first
    | exact length_templateStop? _stop
    | exact Piece.length_rest _read

theorem closeFrame_suffix {frame : Frame} {outer : List Frame} {text rest : Bytes}
    (closed : closeFrame frame outer text = some rest) : rest <:+ text := by
  fun_induction closeFrame frame outer text with
  | case1 | case5 => simp at closed
  | case3 _ _ stop => cases closed; exact templateStop?_suffix stop
  | case9 _ _ _ read => cases closed; exact Piece.rest_suffix read
  | case2 _ _ _ stop ih => exact (ih closed).trans (templateStop?_suffix stop)
  | case4 _ _ stop _ _ ih => exact (ih closed).trans (templateStop?_suffix stop)
  | case6 _ _ _ _ _ read ih => exact (ih closed).trans (Piece.rest_suffix read)
  | case7 _ _ _ _ _ read ih => exact (ih closed).trans (Piece.rest_suffix read)
  | case8 _ _ _ _ _ read _ ih => exact (ih closed).trans (Piece.rest_suffix read)
  | case10 _ _ _ _ _ read _ ih => exact (ih closed).trans (Piece.rest_suffix read)
  | case11 _ _ _ _ _ _ read _ _ ih => exact (ih closed).trans (Piece.rest_suffix read)
  | case12 _ _ _ _ _ _ _ read ih => exact (ih closed).trans (Piece.rest_suffix read)

/-- The place of the brace that closes the one at the given place. -/
def matchingBrace? (text : Bytes) (place : Nat) : Option Nat :=
  match text.drop place with
  | [] => none
  | b :: rest =>
    if b = leftBrace then
      (closeFrame .start [] rest).map fun after => text.length - after.length - 1
    else none

/-- The text after the parenthesis that closes the outermost one the history holds. -/
def closeParens (history : History) (text : Bytes) : Option Bytes :=
  match _read : Piece.read? history.divides text with
  | none => none
  | some (.template rest) =>
    match _closed : closeFrame .template [] rest with
    | none => none
    | some after => closeParens history.operand after
  | some (.mark b rest) =>
    if b = leftBrace then
      match _closed : closeFrame .start [] rest with
      | none => none
      | some after => closeParens history.blockValue after
    else if b = rightParen ∧ history.openParens.length = 1 then some rest
    else closeParens (history.mark b) rest
  | some piece => closeParens (history.after piece) piece.rest
termination_by text.length
decreasing_by
  · exact Nat.lt_of_le_of_lt (closeFrame_suffix _closed).length_le (Piece.length_rest _read)
  · exact Nat.lt_of_le_of_lt (closeFrame_suffix _closed).length_le (Piece.length_rest _read)
  · exact Piece.length_rest _read
  · exact Piece.length_rest _read

theorem closeParens_suffix {history : History} {text rest : Bytes}
    (closed : closeParens history text = some rest) : rest <:+ text := by
  fun_induction closeParens history text with
  | case1 | case2 | case4 => simp at closed
  | case6 _ _ _ _ read => cases closed; exact Piece.rest_suffix read
  | case3 _ _ _ read _ inner ih =>
    exact (ih closed).trans ((closeFrame_suffix inner).trans (Piece.rest_suffix read))
  | case5 _ _ _ _ inner read ih =>
    exact (ih closed).trans ((closeFrame_suffix inner).trans (Piece.rest_suffix read))
  | case7 _ _ _ _ read _ _ ih => exact (ih closed).trans (Piece.rest_suffix read)
  | case8 _ _ _ _ _ read ih => exact (ih closed).trans (Piece.rest_suffix read)

end Unbundle.Script
