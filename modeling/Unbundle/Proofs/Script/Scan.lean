import Unbundle.Proofs.Script.Trace

namespace Unbundle.Script

open Ascii

/-- One step of a scan: the literal part of a template is passed, or a piece of code is read. -/
inductive Step : List Frame → Bytes → List Frame → Bytes → Prop
  | template {outer : List Frame} {text : Bytes} {stop : TemplateStop}
      (stopped : templateStop? text = some stop) :
      Step (.template :: outer) text (stop.opened ++ outer) stop.rest
  | code {inner : Nat} {history : History} {outer : List Frame} {text : Bytes} {piece : Piece}
      (read : Piece.read? history.divides text = some piece) :
      Step (.code inner history :: outer) text (piece.opened inner history ++ outer) piece.rest

/-- The scan of the first text in the first frames comes to the second text in the second ones. -/
inductive Scans : List Frame → Bytes → List Frame → Bytes → Prop
  | refl (frames : List Frame) (text : Bytes) : Scans frames text frames text
  | step {frames next last : List Frame} {text after rest : Bytes}
      (first : Step frames text next after) (onward : Scans next after last rest) :
      Scans frames text last rest

/-- The text behind the delimiter that closes the last of the frames. -/
def closeAll (frames : List Frame) (text : Bytes) : Option Bytes :=
  (trace frames text).map Prod.snd

variable {frames next last outer : List Frame} {text after rest behind other : Bytes}
  {stop : UInt8}

@[simp] theorem closeAll_nil (text : Bytes) : closeAll [] text = some text := by
  rw [closeAll, trace_nil]
  rfl

theorem closeAll_cons (frame : Frame) (outer : List Frame) (text : Bytes) :
    closeAll (frame :: outer) text = closeFrame frame outer text :=
  map_snd_trace frame outer text

/-- Nothing is closed at the end of the text. -/
theorem closeAll_end (frame : Frame) (outer : List Frame) : closeAll (frame :: outer) [] = none := by
  cases frame with
  | template => rw [closeAll, trace_unstopped rfl, Option.map_none]
  | code inner history => rw [closeAll, trace_unread rfl, Option.map_none]

namespace Step

theorem closeAll_eq (step : Step frames text next after) :
    closeAll frames text = closeAll next after := by
  cases step with
  | template stopped => rw [closeAll, trace_template stopped, closeAll]
  | code read =>
    rw [closeAll, trace_code read, Option.map_map, closeAll]
    rfl

theorem suffix (step : Step frames text next after) : after <:+ text := by
  cases step with
  | template stopped => exact templateStop?_suffix stopped
  | code read => exact Piece.rest_suffix read

/-- A step that ends before a stop is taken alike before every tame text behind the stop. -/
theorem before_stop (stops : Stop stop) (tame : Tame behind other)
    (step : Step frames (text ++ stop :: behind) next (rest ++ stop :: behind)) :
    Step frames (text ++ stop :: other) next (rest ++ stop :: other) := by
  generalize whole : text ++ stop :: behind = code, left : rest ++ stop :: behind = after at step
  cases step with
  | template stopped =>
    obtain ⟨taken, ⟨_, rfl, same, again⟩ | ⟨_, rfl, same, again⟩⟩ := templateStop?_local stopped
    · obtain rfl : rest ++ stop :: behind = _ := left
      rw [same, ← List.cons_append, ← List.append_assoc] at whole
      rw [List.append_cancel_right whole, List.append_assoc]
      exact .template (again (rest ++ stop :: other))
    · obtain rfl : rest ++ stop :: behind = _ := left
      rw [same, ← List.cons_append, ← List.cons_append, ← List.append_assoc] at whole
      rw [List.append_cancel_right whole, List.append_assoc]
      exact .template (again (rest ++ stop :: other))
  | @code inner history outer _ piece read =>
    subst whole
    have again : Step (.code inner history :: outer) (text ++ stop :: other) _ _ :=
      .code (Piece.read?_local stops read left.symm tame)
    rwa [Piece.opened_withRest, Piece.rest_withRest] at again

/-- The step that closes the last frame takes a delimiter, and is taken alike before every text. -/
theorem closer (step : Step frames text [] rest) :
    ∃ code closer, isCloser closer = true ∧ text = code ++ closer :: rest ∧
      ∀ other, Step frames (code ++ closer :: other) [] other := by
  generalize none : [] = next at step
  cases step with
  | @template outer _ stop stopped =>
    obtain ⟨taken, ⟨behind, rfl, rfl, again⟩ | ⟨_, rfl, _, _⟩⟩ := templateStop?_local stopped
    · obtain rfl : [] = outer := none
      exact ⟨taken, backtick, rfl, rfl, fun other => .template (again other)⟩
    · cases none
  | @code inner history outer _ piece read =>
    obtain ⟨_, rfl⟩ | ⟨_, behind, rfl⟩ | ⟨_, _, opened⟩ := piece.opened_cases inner history
    case inl => cases none
    case inr.inr =>
      rw [opened] at none
      cases none
    obtain rfl := Piece.eq_of_read?_mark read
    have again (other : Bytes) : Piece.read? history.divides (rightBrace :: other) =
        some (.mark rightBrace other) := Piece.read?_closer rfl history.divides other
    exact ⟨[], rightBrace, rfl, rfl, fun other => .code (again other)⟩

end Step

namespace Scans

theorem closeAll_eq (scans : Scans frames text last rest) :
    closeAll frames text = closeAll last rest := by
  induction scans with
  | refl => rfl
  | step first _ ih => exact first.closeAll_eq.trans ih

theorem suffix (scans : Scans frames text last rest) : rest <:+ text := by
  induction scans with
  | refl => exact List.suffix_refl _
  | step first _ ih => exact ih.trans first.suffix

/-- A scan that ends before a stop is the same before every tame text behind the stop. -/
theorem before_stop (stops : Stop stop) (tame : Tame behind other)
    (scans : Scans frames (text ++ stop :: behind) last (rest ++ stop :: behind)) :
    Scans frames (text ++ stop :: other) last (rest ++ stop :: other) := by
  generalize whole : text ++ stop :: behind = code, left : rest ++ stop :: behind = final at scans
  induction scans generalizing text with
  | refl frames code =>
    rw [List.append_cancel_right (whole.trans left.symm)]
    exact .refl ..
  | @step frames next last code after final first onward ih =>
    subst whole left
    obtain ⟨taken, same⟩ := onward.suffix
    rw [← List.append_assoc] at same
    subst same
    exact .step (first.before_stop stops tame) (ih rfl rfl)

/-- A scan that closes all frames ends with a delimiter, and reads the code up to it alike before
every tame text. -/
theorem closer (scans : Scans frames text [] rest) (opened : frames ≠ []) :
    ∃ code closer, isCloser closer = true ∧ text = code ++ closer :: rest ∧
      ∀ other, Tame rest other → Scans frames (code ++ closer :: other) [] other := by
  generalize none : [] = last at scans
  induction scans with
  | refl => exact absurd none.symm opened
  | @step frames next last code after final first onward ih =>
    subst none
    cases next with
    | nil =>
      obtain rfl : after = final := by
        cases onward with
        | refl => rfl
        | step impossible => cases impossible
      obtain ⟨taken, closer, closes, rfl, again⟩ := first.closer
      exact ⟨taken, closer, closes, rfl, fun other _ => .step (again other) (.refl ..)⟩
    | cons frame outer =>
      obtain ⟨inside, closer, closes, rfl, again⟩ := ih (List.cons_ne_nil _ _) rfl
      obtain ⟨taken, rfl⟩ := first.suffix
      refine ⟨taken ++ inside, closer, closes, (List.append_assoc ..).symm, fun other tame => ?_⟩
      rw [← List.append_assoc] at first
      exact .step (first.before_stop (.of_isCloser closes) tame) (again other tame)

end Scans

private theorem scans_of_closeAll (closed : closeAll frames text = some rest) :
    Scans frames text [] rest := by
  obtain ⟨⟨met, _⟩, traced, rfl⟩ := Option.map_eq_some_iff.mp closed
  clear closed
  fun_induction trace frames text generalizing met with
  | case1 text =>
    cases traced
    exact .refl ..
  | case2 | case4 => cases traced
  | case3 outer text stop stopped ih => exact .step (.template stopped) (ih met traced)
  | case5 inner history outer text piece read ih =>
    obtain ⟨⟨later, after⟩, further, same⟩ := Option.map_eq_some_iff.mp traced
    cases same
    exact .step (.code read) (ih later further)

/-- The scan comes to the end of all frames exactly where they are closed. -/
theorem closeAll_eq_some : closeAll frames text = some rest ↔ Scans frames text [] rest :=
  ⟨scans_of_closeAll, fun scans => scans.closeAll_eq.trans (closeAll_nil rest)⟩

/-- The scan for a closing delimiter ends with one, and reads the code up to it alike before every
tame text. -/
theorem closeFrame_local {frame : Frame} (closed : closeFrame frame outer text = some rest) :
    ∃ code closer, isCloser closer = true ∧ text = code ++ closer :: rest ∧
      ∀ other, Tame rest other → closeFrame frame outer (code ++ closer :: other) = some other := by
  rw [← closeAll_cons, closeAll_eq_some] at closed
  obtain ⟨code, closer, closes, same, again⟩ := closed.closer (List.cons_ne_nil _ _)
  refine ⟨code, closer, closes, same, fun other tame => ?_⟩
  rw [← closeAll_cons, closeAll_eq_some]
  exact again other tame

end Unbundle.Script
