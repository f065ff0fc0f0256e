import Unbundle.Proofs.Script.Words

namespace Unbundle.Script

open Ascii

variable {text rest : Bytes} {b : UInt8}

/-- Blanks and comments up to a text that begins with neither. The last comment of a text need not
end. -/
inductive Gaps : Bytes → Bytes → Prop
  | stop {text : Bytes} (unblank : ∀ spelling ∈ blanks, ¬spelling <+: text)
      (noLine : ¬[slash, slash] <+: text) (noBlock : ¬[slash, star] <+: text) : Gaps text text
  | blank {spelling text rest : Bytes} (member : spelling ∈ blanks) (onward : Gaps text rest) :
      Gaps (spelling ++ text) rest
  | line {comment text rest : Bytes} (inside : newline ∉ comment) (onward : Gaps text rest) :
      Gaps (slash :: slash :: (comment ++ newline :: text)) rest
  | block {comment text rest : Bytes} (inside : ¬[star, slash] <:+: comment)
      (onward : Gaps text rest) :
      Gaps (slash :: star :: (comment ++ star :: slash :: text)) rest
  | lastLine {comment : Bytes} (inside : newline ∉ comment) : Gaps (slash :: slash :: comment) []
  | lastBlock {comment : Bytes} (inside : ¬[star, slash] <:+: comment) :
      Gaps (slash :: star :: comment) []

private theorem ends_cons : [star, slash] <+: b :: text ↔ b = star ∧ text.head? = some slash := by
  cases text with
  | nil => simp [List.cons_prefix_cons]
  | cons c text => simp [List.cons_prefix_cons, eq_comm]

theorem blockEnd?_eq_some :
    blockEnd? text = some rest ↔
      ∃ comment, ¬[star, slash] <:+: comment ∧ text = comment ++ star :: slash :: rest := by
  constructor
  · intro found
    fun_induction blockEnd? text with
    | case1 => cases found
    | case2 b tail closes =>
      cases found
      obtain ⟨rfl, head⟩ := closes
      obtain ⟨after, rfl⟩ := List.head?_eq_some_iff.mp head
      exact ⟨[], by decide, rfl⟩
    | case3 b tail inside ih =>
      obtain ⟨comment, open_, rfl⟩ := ih found
      refine ⟨b :: comment, fun ends => ?_, rfl⟩
      rcases List.infix_cons_iff.mp ends with here | later
      · obtain ⟨rfl, head⟩ := ends_cons.mp here
        exact inside ⟨rfl, by rw [List.head?_append, head]; rfl⟩
      · exact open_ later
  · rintro ⟨comment, open_, rfl⟩
    induction comment with
    | nil => rfl
    | cons b comment ih =>
      have inside : ¬(b = star ∧ (comment ++ star :: slash :: rest).head? = some slash) := by
        rintro ⟨rfl, head⟩
        cases comment with
        | nil => cases head
        | cons c comment =>
          exact open_ (List.infix_cons_iff.mpr (.inl (ends_cons.mpr ⟨rfl, head⟩)))
      rw [List.cons_append, blockEnd?, if_neg inside]
      exact ih fun later => open_ (List.infix_cons later)

private theorem blockEnd?_eq_none : blockEnd? text = none ↔ ¬[star, slash] <:+: text := by
  induction text with
  | nil => decide
  | cons b text ih =>
    rw [blockEnd?, List.infix_cons_iff, ends_cons, not_or, ← ih]
    by_cases ends : b = star ∧ text.head? = some slash
    · simp [ends]
    · simp [ends]

private theorem lineEnd_append {comment : Bytes} (inside : newline ∉ comment) (text : Bytes) :
    lineEnd (comment ++ text) = lineEnd text :=
  List.dropWhile_append_of_pos fun b member => by
    simpa using fun same : b = newline => inside (same ▸ member)

theorem exists_comment (text : Bytes) :
    ∃ comment, newline ∉ comment ∧ text = comment ++ lineEnd text ∧
      (lineEnd text = [] ∨ ∃ rest, lineEnd text = newline :: rest) := by
  induction text with
  | nil => exact ⟨[], by decide, rfl, .inl rfl⟩
  | cons b text ih =>
    by_cases breaks : b = newline
    · subst breaks
      exact ⟨[], by decide, rfl, .inr ⟨text, rfl⟩⟩
    · obtain ⟨comment, inside, same, ends⟩ := ih
      have onward : lineEnd (b :: text) = lineEnd text := by simp [lineEnd, breaks]
      rw [onward]
      refine ⟨b :: comment, ?_, by rw [List.cons_append, ← same], ends⟩
      simp [inside, Ne.symm breaks]

theorem skipGaps_line (text : Bytes) :
    skipGaps (slash :: slash :: text) = skipGaps (lineEnd text) := by
  rw [skipGaps]
  split
  · next blank => cases (blank?_slash _).symm.trans blank
  · rfl

theorem skipGaps_block (text : Bytes) :
    skipGaps (slash :: star :: text) = ((blockEnd? text).map skipGaps).getD [] := by
  rw [skipGaps]
  split
  · next blank => cases (blank?_slash _).symm.trans blank
  · dsimp only
    rw [if_neg (not_not.mpr rfl), if_neg (by decide), if_pos rfl]
    split <;> next ended => rw [ended]; rfl

private theorem skipGaps_stop (unblank : blank? text = none) (noLine : ¬[slash, slash] <+: text)
    (noBlock : ¬[slash, star] <+: text) : skipGaps text = text := by
  rw [skipGaps]
  split
  · next blank => cases unblank.symm.trans blank
  · split
    · next first second rest _ _ =>
      by_cases slashed : first = slash
      · subst slashed
        have noLine : second ≠ slash := by simpa [List.cons_prefix_cons, eq_comm] using noLine
        have noBlock : second ≠ star := by simpa [List.cons_prefix_cons, eq_comm] using noBlock
        rw [if_neg (not_not.mpr rfl), if_neg noLine, if_neg noBlock]
      · rw [if_pos slashed]
    · rfl

theorem skipGaps_nil : skipGaps [] = [] :=
  skipGaps_stop (by decide) (by decide) (by decide)

namespace Gaps

theorem skipGaps_eq (gaps : Gaps text rest) : skipGaps text = rest := by
  induction gaps with
  | stop unblank noLine noBlock => exact skipGaps_stop (blank?_eq_none.mpr unblank) noLine noBlock
  | blank member onward ih => rw [skipGaps_blank (blank?_append member _), ih]
  | @line comment text rest inside onward ih =>
    have stop : lineEnd (newline :: text) = newline :: text := by simp [lineEnd]
    rw [skipGaps_line, lineEnd_append inside, stop, ← ih]
    exact skipGaps_blank rfl
  | block inside onward ih =>
    rw [skipGaps_block, blockEnd?_eq_some.mpr ⟨_, inside, rfl⟩]
    exact ih
  | @lastLine comment inside =>
    have ended := lineEnd_append inside []
    rw [List.append_nil] at ended
    rw [skipGaps_line, ended]
    exact skipGaps_nil
  | lastBlock inside =>
    rw [skipGaps_block, blockEnd?_eq_none.mpr inside]
    rfl

/-- A line break belongs to the gaps. -/
theorem tail (gaps : Gaps (newline :: text) rest) : Gaps text rest := by
  have noSlash (tail : Bytes) : slash :: tail ≠ newline :: text := by simp +decide
  generalize whole : newline :: text = code at gaps
  cases gaps with
  | stop unblank => exact absurd ⟨text, whole⟩ (unblank [newline] (by decide))
  | @blank spelling behind rest member onward =>
    have found := blank?_append member behind
    rw [← whole] at found
    obtain rfl : text = behind := Option.some.inj found
    exact onward
  | line | block | lastLine | lastBlock => exact absurd whole.symm (noSlash _)

end Gaps

theorem gaps_skipGaps (text : Bytes) : Gaps text (skipGaps text) := by
  fun_induction skipGaps text with
  | case1 text rest blank ih =>
    obtain ⟨spelling, member, rfl⟩ := blank?_eq_some blank
    exact .blank member ih
  | case2 first second rest solid other =>
    have start : slash ≠ first := Ne.symm other
    exact .stop (blank?_eq_none.mp solid) (by simp [List.cons_prefix_cons, start])
      (by simp [List.cons_prefix_cons, start])
  | case3 first rest start solid ih =>
    obtain rfl := not_not.mp start
    obtain ⟨comment, inside, same, ended | ⟨behind, broken⟩⟩ := exists_comment rest
    · rw [ended, List.append_nil] at same
      rw [ended, skipGaps_nil]
      exact .lastLine (same ▸ inside)
    · rw [broken] at same ih ⊢
      rw [same]
      exact .line inside ih.tail
  | case4 first rest start after ended solid differs ih =>
    obtain rfl := not_not.mp start
    obtain ⟨comment, inside, rfl⟩ := blockEnd?_eq_some.mp ended
    exact .block inside ih
  | case5 first rest start endless solid differs =>
    obtain rfl := not_not.mp start
    exact .lastBlock (blockEnd?_eq_none.mp endless)
  | case6 first second rest solid start noLine noBlock =>
    obtain rfl := not_not.mp start
    refine .stop (blank?_eq_none.mp solid) ?_ ?_
    · simp [List.cons_prefix_cons, Ne.symm noLine]
    · simp [List.cons_prefix_cons, Ne.symm noBlock]
  | case7 text solid noPair =>
    have short (second : UInt8) : ¬[slash, second] <+: text := by
      rintro ⟨rest, rfl⟩
      exact noPair slash second rest solid rfl HEq.rfl
    exact .stop (blank?_eq_none.mp solid) (short slash) (short star)

/-- Skipping gaps comes to the text behind them. -/
theorem gaps_iff : Gaps text rest ↔ skipGaps text = rest :=
  ⟨Gaps.skipGaps_eq, fun same => same ▸ gaps_skipGaps text⟩

end Unbundle.Script
