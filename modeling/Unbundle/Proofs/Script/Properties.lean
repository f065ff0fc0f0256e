import Unbundle.Proofs.Script.Grammar

/-!
Names of properties in balanced code. Main statement: another name leaves the closing brace where it
is, unless one of the two is a keyword and what stands behind it could tell.
-/

namespace Unbundle.Script

open Ascii

variable {text rest after word other : Bytes} {inner : Nat} {outer : List Frame}
  {first second : History}

/-- Behind the gaps stands a slash or a doubled sign: what it is depends on whether it could
divide. -/
inductive OperatorBehind : Bytes → Prop
  | slash {text rest : Bytes} (gap : Gaps text (slash :: rest)) : OperatorBehind text
  | increment {text rest : Bytes} (gap : Gaps text (plus :: plus :: rest)) : OperatorBehind text
  | decrement {text rest : Bytes} (gap : Gaps text (minus :: minus :: rest)) : OperatorBehind text

/-- Behind the gaps, and behind braces that close some of the inner blocks, stands an open
parenthesis. -/
inductive ParenBehind : Nat → Bytes → Prop
  | here {inner : Nat} {text rest : Bytes} (gap : Gaps text (leftParen :: rest)) :
      ParenBehind inner text
  | closed {inner : Nat} {text rest : Bytes} (gap : Gaps text (rightBrace :: rest))
      (behind : ParenBehind inner rest) : ParenBehind (inner + 1) text

/-- No gap begins with another byte than that of a blank or a slash. -/
theorem Gaps.solid {b : UInt8} (unblank : blank? (b :: text) = none) (plain : b ≠ slash) :
    Gaps (b :: text) (b :: text) :=
  .stop (blank?_eq_none.mp unblank) (by simp [List.cons_prefix_cons, plain.symm])
    (by simp [List.cons_prefix_cons, plain.symm])

private theorem skipGaps_of_ofSlash {divides : Bool}
    (read : Piece.ofSlash divides text = some (.gap rest)) :
    skipGaps (slash :: text) = skipGaps rest := by
  simp only [Piece.ofSlash] at read
  split at read
  · next line =>
    cases read
    obtain ⟨tail, rfl⟩ := List.head?_eq_some_iff.mp line
    have onward : lineEnd (slash :: tail) = lineEnd tail := by simp +decide [lineEnd]
    rw [skipGaps_line, onward]
  · split at read
    · next block =>
      obtain ⟨after, ended, same⟩ := Option.map_eq_some_iff.mp read
      cases same
      obtain ⟨tail, rfl⟩ := List.head?_eq_some_iff.mp block
      rw [List.tail_cons] at ended
      rw [skipGaps_block, ended]
      rfl
    · split at read
      · cases read
      · cases regex : skipRegex false text <;> rw [regex] at read <;> cases read

theorem skipGaps_of_gap {divides : Bool} (read : Piece.read? divides text = some (.gap rest)) :
    skipGaps text = skipGaps rest := by
  cases text with
  | nil => cases read
  | cons b tail =>
    simp only [Piece.read?] at read
    split at read
    · next after found =>
      cases read
      exact skipGaps_blank found
    · split at read
      · obtain ⟨_, _, impossible⟩ := Option.map_eq_some_iff.mp read
        cases impossible
      · split at read
        · cases read
        · split at read
          · next slashed =>
            rw [slashed]
            exact skipGaps_of_ofSlash read
          · split at read
            · cases read
            · split at read <;> cases read

private theorem OperatorBehind.of_gap {divides : Bool}
    (read : Piece.read? divides text = some (.gap rest)) (behind : OperatorBehind rest) :
    OperatorBehind text := by
  have same := skipGaps_of_gap read
  cases behind with
  | slash gap => exact .slash (gaps_iff.mpr (same.trans gap.skipGaps_eq))
  | increment gap => exact .increment (gaps_iff.mpr (same.trans gap.skipGaps_eq))
  | decrement gap => exact .decrement (gaps_iff.mpr (same.trans gap.skipGaps_eq))

private theorem ParenBehind.of_gap {divides : Bool}
    (read : Piece.read? divides text = some (.gap rest)) (behind : ParenBehind inner rest) :
    ParenBehind inner text := by
  have same := skipGaps_of_gap read
  cases behind with
  | here gap => exact .here (gaps_iff.mpr (same.trans gap.skipGaps_eq))
  | closed gap behind => exact .closed (gaps_iff.mpr (same.trans gap.skipGaps_eq)) behind

theorem Piece.read?_quiet (quiet : ¬OperatorBehind text) (divides other : Bool) :
    read? divides text = read? other text := by
  cases text with
  | nil => rfl
  | cons b text =>
    by_cases slashed : b = Ascii.slash
    · subst slashed
      have solid := blank?_slash text
      have comment : text.head? = some Ascii.slash ∨ text.head? = some star := by
        by_contra none
        rw [not_or] at none
        refine quiet (.slash (.stop (blank?_eq_none.mp solid) ?_ ?_))
        · intro begun
          obtain ⟨tail, rfl⟩ := (List.cons_prefix_cons.mp begun).2
          exact none.1 rfl
        · intro begun
          obtain ⟨tail, rfl⟩ := (List.cons_prefix_cons.mp begun).2
          exact none.2 rfl
      rw [read?_slash solid, read?_slash solid, ofSlash, ofSlash]
      rcases comment with line | block
      · rw [if_pos line, if_pos line]
      · simp +decide [block]
    · rw [read?, read?]
      cases blank : blank? (b :: text) with
      | some after => rfl
      | none =>
        have single : ¬((b = plus ∨ b = minus) ∧ text.head? = some b) := by
          rintro ⟨rfl | rfl, twice⟩
          · obtain ⟨tail, rfl⟩ := List.head?_eq_some_iff.mp twice
            exact quiet (.increment (.solid blank slashed))
          · obtain ⟨tail, rfl⟩ := List.head?_eq_some_iff.mp twice
            exact quiet (.decrement (.solid blank slashed))
        simp only [slashed, single, and_false, if_false]

private theorem closeFrame_unread (unread : Piece.read? first.divides text = none) :
    closeFrame (.code inner first) outer text = none := by
  rw [← closeAll_cons, closeAll, trace_unread unread]
  rfl

namespace History

private theorem operand_eq (parens : first.openParens = second.openParens) :
    first.operand = second.operand := by
  simp only [operand, parens]

private theorem operator_eq (parens : first.openParens = second.openParens) :
    first.operator = second.operator := by
  simp only [operator, parens]

theorem word_eq (parens : first.openParens = second.openParens) (text : Bytes) :
    first.word text = second.word text := by
  simp only [word, parens]

theorem mark_eq (parens : first.openParens = second.openParens) {b : UInt8}
    (condition : b = leftParen → first.afterConditionWord = second.afterConditionWord) :
    first.mark b = second.mark b := by
  by_cases opens : b = leftParen
  · rw [mark, mark, if_pos opens, if_pos opens, openParen, openParen, operator_eq parens, parens,
      condition opens]
  · simp only [mark, opens, if_false, closeParen, operand, operator, parens]

end History

/-- The scan for a closing brace goes on alike from two histories that differ in nothing that it
comes to. -/
theorem closeFrame_alike (parens : first.openParens = second.openParens)
    (divides : first.divides = second.divides ∨ ¬OperatorBehind text)
    (condition : first.afterConditionWord = second.afterConditionWord ∨ ¬ParenBehind inner text) :
    closeFrame (.code inner first) outer text = closeFrame (.code inner second) outer text := by
  induction length : text.length using Nat.strong_induction_on
    generalizing text inner first second with
  | _ size ih =>
    have reads : Piece.read? first.divides text = Piece.read? second.divides text := by
      rcases divides with same | quiet
      · rw [same]
      · exact Piece.read?_quiet quiet _ _
    cases read : Piece.read? first.divides text with
    | none => rw [closeFrame_unread read, closeFrame_unread (reads ▸ read)]
    | some piece =>
      have shorter := Piece.length_rest read
      rw [length] at shorter
      rw [closeFrame_code read, closeFrame_code (reads.symm.trans read)]
      cases piece with
      | gap rest =>
        exact ih _ shorter parens (divides.imp_right (mt (OperatorBehind.of_gap read)))
          (condition.imp_right (mt (ParenBehind.of_gap read))) rfl
      | literal rest =>
        simp only [resume, History.after, History.operand_eq parens]
      | increment rest =>
        simp only [resume, History.after, History.operand_eq parens]
      | template rest =>
        simp only [resume, History.operand_eq parens]
      | word word rest =>
        simp only [resume, History.after, History.word_eq parens]
      | mark b rest =>
        obtain rfl := Piece.eq_of_read?_mark read
        by_cases opens : b = leftBrace
        · subst opens
          have same : first.mark leftBrace = second.mark leftBrace :=
            History.mark_eq parens fun same => absurd same (by decide)
          change closeFrame (.code (inner + 1) (first.mark leftBrace)) outer rest =
            closeFrame (.code (inner + 1) (second.mark leftBrace)) outer rest
          rw [same]
        by_cases closes : b = rightBrace
        · subst closes
          have gap : Gaps (rightBrace :: rest) (rightBrace :: rest) := .solid (blank?_cons rfl _) (by decide)
          cases inner with
          | zero => cases outer <;> rfl
          | succ inner =>
            exact ih _ shorter parens (.inl rfl) (condition.imp_right (mt (.closed gap))) rfl
        · have same : first.mark b = second.mark b := by
            refine History.mark_eq parens ?_
            rintro rfl
            exact condition.resolve_right fun none => none (.here (.solid (blank?_cons rfl _) (by decide)))
          simp only [resume, if_neg opens, if_neg closes, same]

/-- A property is renamed without an effect on the closing brace, as far as its name is no keyword
where what stands behind it could tell. -/
theorem matchingBrace?_rename {front before : Bytes} {history : History}
    (met : Scans [.start] (before ++ dot :: (word ++ after)) (.code inner history :: outer)
      (dot :: (word ++ after)))
    (whole : Word.split (word ++ after) = (word, after)) (nonempty : word ≠ [])
    (another : Word.IsWord other) (long : other.length = word.length)
    (operand : (word ∈ Word.expectOperand ↔ other ∈ Word.expectOperand) ∨ ¬OperatorBehind after)
    (condition : (word ∈ Word.takeCondition ↔ other ∈ Word.takeCondition) ∨
      ¬ParenBehind inner after) :
    matchingBrace? (front ++ leftBrace :: (before ++ dot :: (other ++ after))) front.length =
      matchingBrace? (front ++ leftBrace :: (before ++ dot :: (word ++ after))) front.length := by
  have ends := Word.split_rest whole
  have again := Word.split_append_of_split ends another.2
  have stops : Stop dot := ⟨by decide, by decide, by decide⟩
  have tame : Tame (word ++ after) (other ++ after) := by
    intro inClass unclosed
    rwa [Word.skipRegex_append (Word.parts_of_split another.2),
      ← Word.skipRegex_append (Word.parts_of_split whole)]
  -- Both scans come to the property alike, and go on behind it with what they remember of its name.
  have property {name : Bytes} (split : Word.split (name ++ after) = (name, after))
      (named : name ≠ []) (met : Scans [.start] (before ++ dot :: (name ++ after))
        (.code inner history :: outer) (dot :: (name ++ after))) :
      closeFrame .start [] (before ++ dot :: (name ++ after)) =
        closeFrame (.code inner ((history.mark dot).word name)) outer after := by
    have mark : Piece.read? history.divides (dot :: (name ++ after)) =
        some (.mark dot (name ++ after)) := Piece.read?_mark rfl _ _
    have read : Piece.read? (history.mark dot).divides (name ++ after) = some (.word name after) :=
      Piece.read?_eq_word.mpr ⟨split, named⟩
    rw [← closeAll_cons, met.closeAll_eq, closeAll_cons, closeFrame_code mark]
    exact closeFrame_code read
  have found : closeFrame .start [] (before ++ dot :: (other ++ after)) =
      closeFrame .start [] (before ++ dot :: (word ++ after)) := by
    have there : Scans [.start] (before ++ dot :: (other ++ after)) (.code inner history :: outer)
        ([] ++ dot :: (other ++ after)) := met.before_stop stops tame
    rw [property again another.1 there, property whole nonempty met]
    refine closeFrame_alike rfl (operand.imp_left fun same => ?_) (condition.imp_left fun same => ?_)
    · by_cases kind : other ∈ Word.expectOperand <;> simp [History.divides, History.word, same, kind]
    · simp only [History.word, same]
  have size : (front ++ leftBrace :: (before ++ dot :: (other ++ after))).length =
      (front ++ leftBrace :: (before ++ dot :: (word ++ after))).length := by
    simp [long]
  rw [matchingBrace?, matchingBrace?, List.drop_left, List.drop_left, size]
  dsimp only
  rw [if_pos rfl, if_pos rfl, found]

/-- A call of a property whose name is a keyword. -/
theorem matchingBrace?_rename_sample :
    let after := utf8 "(b)/2\x7d"
    let met := dot :: (utf8 "in" ++ after)
    Scans [.start] (utf8 "x" ++ met) [.code 0 (History.block.word (utf8 "x"))] met ∧
      Word.split (utf8 "in" ++ after) = (utf8 "in", after) ∧ Word.IsWord (utf8 "id") ∧
      ¬OperatorBehind after ∧
      matchingBrace? (leftBrace :: (utf8 "x" ++ dot :: (utf8 "id" ++ after))) 0 =
        matchingBrace? (leftBrace :: (utf8 "x" ++ met)) 0 := by
  intro after met
  have read : Piece.read? History.block.divides (utf8 "x" ++ met) = some (.word (utf8 "x") met) := by
    decide +kernel
  have reached : Scans [.start] (utf8 "x" ++ met) [.code 0 (History.block.word (utf8 "x"))] met :=
    .step (.code read) (.refl _ _)
  have whole : Word.split (utf8 "in" ++ after) = (utf8 "in", after) := by decide +kernel
  have another : Word.IsWord (utf8 "id") := ⟨by decide +kernel, by decide +kernel⟩
  have start : skipGaps after = after := by decide +kernel
  have first : after.head? = some leftParen := by decide +kernel
  have quiet : ¬OperatorBehind after := by
    intro behind
    cases behind with
    | slash gap | increment gap | decrement gap =>
      have head := congrArg List.head? (start.symm.trans gap.skipGaps_eq)
      rw [first] at head
      cases head
  have condition : utf8 "in" ∈ Word.takeCondition ↔ utf8 "id" ∈ Word.takeCondition := by
    decide +kernel
  exact ⟨reached, whole, another, quiet, @matchingBrace?_rename _ _ _ _ _ [] _ _ reached whole
    (by decide +kernel) another (by decide +kernel) (.inr quiet) (.inl condition)⟩

/-- The name of a property decides where code ends: a slash behind a keyword begins a regular
expression, and so does one behind the parenthesis behind a condition word. -/
theorem matchingBrace?_steered :
    (matchingBrace? (utf8 "\x7ba.in/2\x7d/\x7d") 0 = some 9 ∧
      matchingBrace? (utf8 "\x7ba.id/2\x7d/\x7d") 0 = some 7) ∧
    (matchingBrace? (utf8 "\x7ba.if(x)/2\x7d/\x7d") 0 = some 12 ∧
      matchingBrace? (utf8 "\x7ba.id(x)/2\x7d/\x7d") 0 = some 10) := by
  decide +kernel

end Unbundle.Script
