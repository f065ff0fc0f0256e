import Unbundle.Proofs.Script.Scan
import Unbundle.Proofs.Script.Shown
import Unbundle.Proofs.Script.Words

namespace Unbundle.Script

open Ascii

variable {text rest tail : Bytes} {frames next : List Frame}

/-- A slash that with the tail begins a regular expression stands for itself in the code that is
kept, and what stands behind it there closes the frames. -/
inductive Misread (frames : List Frame) (kept tail : Bytes) : Prop
  | slash {inner : Nat} {history : History} {outer : List Frame} {inside after : Bytes}
      (whole : Scans frames (kept ++ tail) (.code inner history :: outer) (slash :: (inside ++ tail)))
      (regex : Piece.read? history.divides (slash :: (inside ++ tail)) = some (.literal after))
      (cut : Scans frames kept (.code inner history :: outer) (slash :: inside))
      (mark : Piece.read? history.divides (slash :: inside) = some (.mark slash inside))
      (closes : closeFrame (.code inner (history.mark slash)) outer inside ≠ none)

/-- A piece of a text whose tail is cut off: it is read alike with the tail, or it reaches to the cut,
or it is a slash that with the tail begins a regular expression. -/
inductive Resumes (divides : Bool) (text tail : Bytes) (piece : Piece) : Prop
  | same (read : Piece.read? divides (text ++ tail) = some (piece.withRest (piece.rest ++ tail)))
  | reaches (ends : piece.rest = []) (other : piece ≠ .mark rightBrace [])
  | slash {inside after : Bytes} (start : text = slash :: inside) (mark : piece = .mark slash inside)
      (regex : Piece.read? divides (text ++ tail) = some (.literal after))

/-- A regular expression whose flags do not reach to the end of a text is closed alike where the
text goes on. -/
theorem skipRegex_append_tail {inClass : Bool} (closed : skipRegex inClass text = some rest)
    (left : rest ≠ []) (tail : Bytes) : skipRegex inClass (text ++ tail) = some (rest ++ tail) := by
  fun_induction skipRegex inClass text with
  | case1 | case2 | case4 => cases closed
  | case3 inClass b text ih => simpa [skipRegex] using ih closed
  | case5 b text plain unbroken ih =>
    rw [List.cons_append, skipRegex_cons plain, if_neg unbroken]
    exact ih closed
  | case6 inClass text unclassed plain unbroken =>
    cases closed
    rw [List.cons_append, skipRegex_cons plain, if_neg unbroken, if_neg unclassed, if_pos rfl,
      Word.split_append_tail rfl left]
  | case7 inClass b text plain unbroken unclassed notSlash ih =>
    rw [List.cons_append, skipRegex_cons plain, if_neg unbroken, if_neg unclassed, if_neg notSlash]
    exact ih closed

private theorem lineEnd_append_tail (left : lineEnd text ≠ []) (tail : Bytes) :
    lineEnd (text ++ tail) = lineEnd text ++ tail := by
  rw [lineEnd, List.dropWhile_append, if_neg (by simpa [lineEnd] using left)]
  rfl

theorem startsGap_of_solid {b : UInt8} (solid : blank? (b :: text) = none)
    (outside : ¬Word.isPart b = true) (different : b ≠ slash) : startsGap b = false := by
  have starts : ∀ c ∈ blankStarts, Word.isPart c = true ∨ [c] ∈ blanks := by
    decide +kernel
  have absent : b ∉ blankStarts := fun member => by
    rcases starts b member with part | blank
    · exact outside part
    · cases (blank?_append blank text).symm.trans solid
  simp [startsGap, absent, different]

namespace Piece

/-- What a slash begins is read alike where the text goes on, but for what reaches to the cut and
for a regular expression. -/
private theorem resumes_slash {divides : Bool} {inside : Bytes} {piece : Piece}
    (read : ofSlash divides inside = some piece) (tail : Bytes) :
    Resumes divides (slash :: inside) tail piece := by
  have whole : read? divides (slash :: inside ++ tail) = ofSlash divides (inside ++ tail) :=
    read?_slash (blank?_slash _) divides
  cases inside with
  | nil =>
    have alone : piece = mark slash [] := by
      cases divides <;> exact (Option.some.inj read).symm
    subst alone
    exact .reaches rfl (by decide)
  | cons c inside =>
    have head : (c :: inside ++ tail).head? = (c :: inside).head? := rfl
    simp only [ofSlash, head] at read whole
    split at read
    · next line =>
      cases read
      by_cases left : lineEnd (c :: inside) = []
      · exact .reaches left (by simp)
      · refine .same (whole.trans ?_)
        rw [if_pos line, lineEnd_append_tail left]
        rfl
    split at read
    · next line block =>
      obtain ⟨after, ended, rfl⟩ := Option.map_eq_some_iff.mp read
      obtain ⟨taken, same, again⟩ := blockEnd?_local ended
      refine .same (whole.trans ?_)
      rw [if_neg line, if_pos block]
      change (blockEnd? (inside ++ tail)).map gap = _
      rw [show inside = taken ++ after from same, List.append_assoc, again]
      rfl
    split at read
    · next line block operand =>
      cases read
      exact .same (whole.trans (by rw [if_neg line, if_neg block, if_pos operand]; rfl))
    · next line block operand =>
      rw [if_neg line, if_neg block, if_neg operand] at whole
      cases regex : skipRegex false (c :: inside) with
      | some after =>
        rw [regex] at read
        cases read
        by_cases left : after = []
        · exact .reaches left (by simp)
        · refine .same (whole.trans ?_)
          rw [skipRegex_append_tail regex left]
          rfl
      | none =>
        rw [regex] at read
        cases read
        cases onward : skipRegex false (c :: inside ++ tail) with
        | none =>
          rw [onward] at whole
          exact .same whole
        | some after =>
          rw [onward] at whole
          exact .slash rfl rfl whole

private theorem read?_punctuation {b : UInt8} (solid : startsGap b = false)
    (noQuote : ¬isQuote b = true) (noTemplate : b ≠ backtick) (noWord : ¬Word.isPart b = true)
    (divides : Bool) (rest : Bytes) : read? divides (b :: rest) =
      if divides ∧ (b = plus ∨ b = minus) ∧ rest.head? = some b then some (increment rest.tail)
      else some (mark b rest) := by
  have noSlash : b ≠ slash := by
    rintro rfl
    cases solid
  rw [read?, blank?_cons solid]
  simp [noQuote, noTemplate, noSlash, noWord]

/-- A sign at the end of a text may be the first half of a doubled one. -/
private theorem resumes_punctuation {divides : Bool} {piece : Piece} {b : UInt8}
    (solid : startsGap b = false) (noQuote : ¬isQuote b = true) (noTemplate : b ≠ backtick)
    (noWord : ¬Word.isPart b = true) (read : read? divides (b :: text) = some piece) (tail : Bytes) :
    Resumes divides (b :: text) tail piece := by
  have whole := read?_punctuation solid noQuote noTemplate noWord divides
  rw [whole] at read
  cases text with
  | nil =>
    have alone : piece = mark b [] := by
      rw [if_neg (by simp)] at read
      exact (Option.some.inj read).symm
    subst alone
    by_cases closes : b = rightBrace
    · subst closes
      exact .same (read?_closer rfl divides tail)
    · exact .reaches rfl (by simpa using closes)
  | cons c text =>
    refine .same ((whole (c :: text ++ tail)).trans ?_)
    change (if divides ∧ (b = plus ∨ b = minus) ∧ (c :: text).head? = some b
      then some (increment (text ++ tail)) else some (mark b (c :: text ++ tail))) = _
    split at read
    · next twice =>
      cases read
      rw [if_pos twice]
      rfl
    · next single =>
      cases read
      rw [if_neg single]
      rfl

/-- A piece is read alike where the text goes on, but for one that reaches to the cut and for a
regular expression. -/
theorem resumes {divides : Bool} {piece : Piece} (read : read? divides text = some piece)
    (tail : Bytes) : Resumes divides text tail piece := by
  cases text with
  | nil => cases read
  | cons b text =>
    have kept := read
    simp only [read?] at read
    split at read
    · next after blank =>
      cases read
      exact .same (read?_blank (blank?_append_tail blank tail) divides)
    next solid =>
    split at read
    · next quotes =>
      obtain ⟨after, closed, rfl⟩ := Option.map_eq_some_iff.mp read
      obtain ⟨taken, rfl, again⟩ := skipQuoted_local closed
      refine .same ((read?_quote quotes divides (taken ++ after ++ tail)).trans ?_)
      rw [List.append_assoc, again]
      rfl
    split at read
    · next opens =>
      cases read
      subst opens
      exact .same (read?_closer rfl divides _)
    split at read
    · next slashed =>
      subst slashed
      exact resumes_slash read tail
    split at read
    · cases read
      obtain ⟨found, nonempty⟩ := read?_eq_word.mp kept
      by_cases left : (Word.split (b :: text)).2 = []
      · exact .reaches left (by simp)
      · exact .same (read?_eq_word.mpr ⟨Word.split_append_tail found left tail, nonempty⟩)
    next noQuote noTemplate noSlash noWord =>
    exact resumes_punctuation (startsGap_of_solid solid noWord noSlash) noQuote noTemplate noWord kept
      tail

end Piece

private theorem Piece.opened_ne_nil {piece : Piece} (ends : piece.rest = [])
    (other : piece ≠ .mark rightBrace []) (inner : Nat) (history : History) :
    piece.opened inner history ≠ [] := by
  obtain ⟨rest, rfl⟩ | ⟨_, rest, rfl⟩ | ⟨_, blocks, opened⟩ := piece.opened_cases inner history
  · exact List.cons_ne_nil _ _
  · exact absurd (congrArg (mark rightBrace) ends) other
  · rw [opened]
    exact List.cons_ne_nil _ _

private theorem Piece.opened_slash (inner : Nat) (history : History) (rest : Bytes) :
    (mark slash rest).opened inner history = [.code inner (history.mark slash)] := rfl

theorem Scans.ne_nil (closed : Scans frames text [] rest) (opened : frames ≠ []) : text ≠ [] := by
  rintro rfl
  obtain ⟨frame, outer, rfl⟩ := List.exists_cons_of_ne_nil opened
  have nothing := closed.closeAll_eq
  rw [closeAll_end, closeAll_nil] at nothing
  cases nothing

theorem Misread.step (whole : Step frames (text ++ tail) next (rest ++ tail))
    (cut : Step frames text next rest) (misread : Misread next rest tail) :
    Misread frames text tail := by
  obtain ⟨onward, regex, further, mark, closes⟩ := misread
  exact .slash (.step whole onward) regex (.step cut further) mark closes

/-- Frames that the kept code closes are closed alike with the tail, but for a slash that is
misread. -/
theorem Scans.append (closed : Scans frames text [] rest) (tail : Bytes) :
    Misread frames text tail ∨ Scans frames (text ++ tail) [] (rest ++ tail) := by
  generalize none : [] = last at closed
  induction closed with
  | refl => exact .inr (.refl ..)
  | @step frames next last text after rest first onward ih =>
    subst none
    -- Where the step is taken alike with the tail, the rest of the scan decides.
    have alike (again : Step frames (text ++ tail) next (after ++ tail)) :
        Misread frames text tail ∨ Scans frames (text ++ tail) [] (rest ++ tail) :=
      (ih rfl).imp (·.step again first) (.step again)
    cases first with
    | template stopped =>
      refine alike ?_
      obtain ⟨taken, ⟨behind, rfl, rfl, same⟩ | ⟨behind, rfl, rfl, same⟩⟩ :=
        templateStop?_local stopped
      all_goals
        rw [List.append_assoc]
        exact .template (same (behind ++ tail))
    | @code inner history outer _ piece read =>
      rcases Piece.resumes read tail with again | ⟨ends, other⟩ | ⟨rfl, rfl, regex⟩
      · have again : Step (.code inner history :: outer) (text ++ tail) _ _ := .code again
        rw [Piece.opened_withRest, Piece.rest_withRest] at again
        exact alike again
      · have opened := Piece.opened_ne_nil ends other inner history
        exact absurd ends (onward.ne_nil (List.append_ne_nil_of_left_ne_nil opened outer))
      · refine .inl (.slash (.refl ..) regex (.refl ..) read ?_)
        have onward := onward.closeAll_eq
        rw [Piece.opened_slash, closeAll_nil] at onward
        rw [← closeAll_cons]
        exact onward ▸ Option.some_ne_none rest

/-- Code whose closing brace is cut off is closed exactly where a slash is misread. -/
theorem closeFrame_cut {kept : Bytes} (balanced : closeFrame .start [] (kept ++ tail) = some [])
    (nonempty : tail ≠ []) : closeFrame .start [] kept = none ↔ ¬Misread [.start] kept tail := by
  constructor
  · rintro unclosed ⟨_, _, cut, mark, closes⟩
    have onward := cut.closeAll_eq
    rw [closeAll_cons, unclosed, (Step.code mark).closeAll_eq, Piece.opened_slash] at onward
    exact closes ((closeAll_cons ..).symm.trans onward.symm)
  · intro read
    by_contra closed
    obtain ⟨rest, closed⟩ := Option.ne_none_iff_exists'.mp closed
    rw [← closeAll_cons, closeAll_eq_some] at closed
    rcases closed.append tail with misread | whole
    · exact read misread
    · rw [← closeAll_eq_some, closeAll_cons, balanced] at whole
      exact nonempty (List.append_eq_nil_iff.mp (Option.some.inj whole).symm).2

end Unbundle.Script
