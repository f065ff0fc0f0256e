import Unbundle.Proofs.Script.Ending

namespace Unbundle.Script

open Ascii

/-- A piece of code with the number of frames that are open around its own. -/
structure Met where
  depth : Nat
  piece : Piece
  deriving DecidableEq, Repr

/-- The frames that stand in place of a template's behind a literal part of it. -/
def TemplateStop.opened : TemplateStop → List Frame
  | closed _ => []
  | expression _ => [.start, .template]

/-- The frames that stand in place of that of the code in which the piece was read. -/
def Piece.opened (inner : Nat) (history : History) : Piece → List Frame
  | .template _ => [.template, .code inner history.operand]
  | .mark b _ =>
    if b = leftBrace then [.code (inner + 1) (history.mark b)]
    else if b = rightBrace then
      match inner with
      | inner + 1 => [.code inner history.closeBlock]
      | 0 => []
    else [.code inner (history.mark b)]
  | piece => [.code inner (history.after piece)]

private theorem Piece.opened_mark (inner : Nat) (history : History) (b : UInt8) (rest : Bytes) :
    (mark b rest).opened inner history =
      if b = leftBrace then [.code (inner + 1) (history.mark b)]
      else if b = rightBrace then
        match inner with
        | inner + 1 => [.code inner history.closeBlock]
        | 0 => []
      else [.code inner (history.mark b)] := rfl

/-- What a scan remembers past a piece that leaves it in its frame. -/
def History.past (history : History) : Piece → History
  | .mark b _ => if b = rightBrace then history.closeBlock else history.mark b
  | piece => history.after piece

/-- A scan goes on in its frame but for the opening of a template and the closing brace of the
frame. -/
theorem Piece.opened_cases (inner : Nat) (history : History) (piece : Piece) :
    (∃ rest, piece = template rest) ∨ (inner = 0 ∧ ∃ rest, piece = mark rightBrace rest) ∨
      (∀ rest, piece ≠ template rest) ∧
        ∃ blocks, piece.opened inner history = [.code blocks (history.past piece)] := by
  cases piece with
  | template rest => exact .inl ⟨rest, rfl⟩
  | gap rest | literal rest | word text rest | increment rest =>
    exact .inr (.inr ⟨nofun, inner, rfl⟩)
  | mark b rest =>
    rw [Piece.opened_mark, History.past]
    by_cases opens : b = leftBrace
    · subst opens
      exact .inr (.inr ⟨nofun, inner + 1, rfl⟩)
    by_cases closes : b = rightBrace
    · subst closes
      cases inner with
      | zero => exact .inr (.inl ⟨rfl, rest, rfl⟩)
      | succ inner => exact .inr (.inr ⟨nofun, inner, rfl⟩)
    · rw [if_neg opens, if_neg closes, if_neg closes]
      exact .inr (.inr ⟨nofun, inner, rfl⟩)

/-- All pieces of code up to the delimiter that closes the last of the frames, the innermost one
first, and the text behind it. -/
def trace (frames : List Frame) (text : Bytes) : Option (List Met × Bytes) :=
  match frames with
  | [] => some ([], text)
  | .template :: outer =>
    match _stop : templateStop? text with
    | none => none
    | some stop => trace (stop.opened ++ outer) stop.rest
  | .code inner history :: outer =>
    match _read : Piece.read? history.divides text with
    | none => none
    | some piece =>
      (trace (piece.opened inner history ++ outer) piece.rest).map fun (met, rest) =>
        (⟨outer.length, piece⟩ :: met, rest)
termination_by text.length
decreasing_by
  · exact length_templateStop? _stop
  · exact Piece.length_rest _read

variable {frames outer : List Frame} {inner : Nat} {history : History} {text rest : Bytes}
  {met : List Met} {piece : Piece}

@[simp] theorem trace_nil (text : Bytes) : trace [] text = some ([], text) := by rw [trace]

theorem trace_template {stop : TemplateStop} (stopped : templateStop? text = some stop) :
    trace (.template :: outer) text = trace (stop.opened ++ outer) stop.rest := by
  rw [trace]
  split
  · next unstopped => cases stopped.symm.trans unstopped
  · next found => cases stopped.symm.trans found; rfl

theorem trace_code (read : Piece.read? history.divides text = some piece) :
    trace (.code inner history :: outer) text =
      (trace (piece.opened inner history ++ outer) piece.rest).map fun (met, rest) =>
        (⟨outer.length, piece⟩ :: met, rest) := by
  rw [trace]
  split
  · next unread => cases read.symm.trans unread
  · next found => cases read.symm.trans found; rfl

theorem trace_unstopped (unstopped : templateStop? text = none) :
    trace (.template :: outer) text = none := by
  rw [trace]
  split
  · rfl
  · next found => cases unstopped.symm.trans found

theorem trace_unread (unread : Piece.read? history.divides text = none) :
    trace (.code inner history :: outer) text = none := by
  rw [trace]
  split
  · rfl
  · next found => cases unread.symm.trans found

private theorem exists_stop_of_trace (traced : trace (.template :: outer) text = some (met, rest)) :
    ∃ stop, templateStop? text = some stop ∧
      trace (stop.opened ++ outer) stop.rest = some (met, rest) := by
  rw [trace] at traced
  split at traced
  · cases traced
  · next stop stopped => exact ⟨stop, stopped, traced⟩

theorem exists_piece_of_trace
    (traced : trace (.code inner history :: outer) text = some (met, rest)) :
    ∃ piece later, Piece.read? history.divides text = some piece ∧
      trace (piece.opened inner history ++ outer) piece.rest = some (later, rest) ∧
      met = ⟨outer.length, piece⟩ :: later := by
  rw [trace] at traced
  split at traced
  · cases traced
  · next piece read =>
    obtain ⟨⟨later, after⟩, further, same⟩ := Option.map_eq_some_iff.mp traced
    cases same
    exact ⟨piece, later, read, further, rfl⟩

/-- The pieces are those of the scan for the closing delimiter. -/
theorem map_snd_trace (frame : Frame) (outer : List Frame) (text : Bytes) :
    (trace (frame :: outer) text).map Prod.snd = closeFrame frame outer text := by
  have kept (depth : Nat) (piece : Piece) (found : Option (List Met × Bytes)) :
      (found.map fun (met, rest) => (Met.mk depth piece :: met, rest)).map Prod.snd =
        found.map Prod.snd := by
    cases found <;> rfl
  fun_induction closeFrame frame outer text with
  | case1 outer text unstopped =>
    rw [trace_unstopped unstopped]
    rfl
  | case2 outer text rest stopped ih =>
    rw [trace_template stopped]
    exact ih
  | case3 text rest stopped =>
    rw [trace_template stopped, TemplateStop.opened, List.nil_append, trace_nil]
    rfl
  | case4 text rest stopped next outer ih =>
    rw [trace_template stopped]
    exact ih
  | case5 outer text inner history unread =>
    rw [trace_unread unread]
    rfl
  | case6 outer text inner history rest read ih =>
    rw [trace_code read, kept]
    exact ih
  | case7 outer text inner history rest read ih =>
    rw [trace_code read, kept, Piece.opened_mark, if_pos rfl]
    exact ih
  | case8 outer text history rest inner read noOpen ih =>
    rw [trace_code read, kept]
    exact ih
  | case9 text history rest read =>
    rw [trace_code read, kept, Piece.opened_mark, if_neg (by decide), if_pos rfl,
      List.nil_append, trace_nil]
    rfl
  | case10 text history rest next outer read noOpen ih =>
    rw [trace_code read, kept]
    exact ih
  | case11 outer text inner history b rest read noOpen noClose ih =>
    rw [trace_code read, kept, Piece.opened_mark, if_neg noOpen, if_neg noClose]
    exact ih
  | case12 outer text inner history piece noTemplate noMark read ih =>
    rw [trace_code read, kept]
    cases piece with
    | template rest => exact absurd rfl (noTemplate rest)
    | mark b rest => exact absurd rfl (noMark b rest)
    | gap | literal | word | increment => exact ih

theorem trace_suffix (traced : trace frames text = some (met, rest)) : rest <:+ text := by
  fun_induction trace frames text generalizing met with
  | case1 text =>
    cases traced
    exact List.suffix_refl _
  | case2 | case4 => cases traced
  | case3 outer text stop stopped ih => exact (ih traced).trans (templateStop?_suffix stopped)
  | case5 inner history outer text piece read ih =>
    obtain ⟨⟨later, after⟩, further, same⟩ := Option.map_eq_some_iff.mp traced
    cases same
    exact (ih further).trans (Piece.rest_suffix read)

/-- Frames that are closed leave some text behind only if none is open. -/
theorem rest_ne_nil_of_trace {frame : Frame}
    (traced : trace (frame :: outer) text = some (met, rest)) : text ≠ [] := by
  rintro rfl
  cases frame with
  | template =>
    obtain ⟨stop, stopped, _⟩ := exists_stop_of_trace traced
    cases stopped
  | code inner history =>
    obtain ⟨piece, later, read, _⟩ := exists_piece_of_trace traced
    cases read

/-- The pieces as they are met with more frames around them. -/
def raised (count : Nat) (met : List Met) : List Met :=
  met.map fun one => { one with depth := one.depth + count }

/-- The inner frames of a stack are closed before the outer ones. -/
theorem trace_append (below outer : List Frame) (text : Bytes) :
    trace (below ++ outer) text =
      (trace below text).bind fun (met, after) =>
        (trace outer after).map fun (later, rest) => (raised outer.length met ++ later, rest) := by
  fun_induction trace below text with
  | case1 text =>
    simp [raised]
  | case2 above text unstopped =>
    rw [List.cons_append, trace_unstopped unstopped]
    rfl
  | case3 above text stop stopped ih =>
    rw [List.cons_append, trace_template stopped, ← List.append_assoc]
    exact ih
  | case4 text inner history above unread =>
    rw [List.cons_append, trace_unread unread]
    rfl
  | case5 text inner history above piece read ih =>
    rw [List.cons_append, trace_code read, ← List.append_assoc, ih, List.length_append]
    cases trace (piece.opened inner history ++ above) piece.rest with
    | none => rfl
    | some found =>
      obtain ⟨met, after⟩ := found
      dsimp only [Option.bind_some, Option.map_some]
      cases trace outer after <;> rfl

@[simp] theorem Piece.rest_withRest (piece : Piece) (rest : Bytes) :
    (piece.withRest rest).rest = rest := by
  cases piece <;> rfl

@[simp] theorem Piece.opened_withRest (inner : Nat) (history : History) (piece : Piece)
    (rest : Bytes) :
    (piece.withRest rest).opened inner history = piece.opened inner history := by
  cases piece <;> rfl

/-- What is closed in front of the last brace is closed without it. -/
theorem trace_of_concat
    (traced : trace frames (text ++ [rightBrace]) = some (met, rest ++ [rightBrace])) :
    ∃ same, trace frames text = some (same, rest) := by
  have ends : rest ++ [rightBrace] ≠ [] :=
    List.append_ne_nil_of_right_ne_nil _ (List.cons_ne_nil _ _)
  generalize whole : text ++ [rightBrace] = code at traced
  fun_induction trace frames code generalizing text met with
  | case1 code =>
    cases traced
    rw [List.append_cancel_right whole]
    exact ⟨[], trace_nil rest⟩
  | case2 | case4 => cases traced
  | case3 outer code stop stopped ih =>
    subst whole
    obtain ⟨inside, behind, _⟩ :=
      eq_concat_of_suffix (templateStop?_suffix stopped) ((trace_suffix traced).ne_nil ends)
    obtain ⟨same, further⟩ := ih behind.symm traced
    refine ⟨same, ?_⟩
    rw [trace_template (templateStop?_of_concat stopped behind)]
    cases stop <;> exact further
  | case5 inner history outer code piece read ih =>
    subst whole
    obtain ⟨⟨later, after⟩, onward, split⟩ := Option.map_eq_some_iff.mp traced
    cases split
    obtain ⟨inside, behind, _⟩ :=
      eq_concat_of_suffix (Piece.rest_suffix read) ((trace_suffix onward).ne_nil ends)
    obtain ⟨same, further⟩ := ih behind.symm onward
    rw [trace_code (Piece.read?_of_concat read behind), Piece.opened_withRest,
      Piece.rest_withRest, further]
    exact ⟨_, rfl⟩

end Unbundle.Script
