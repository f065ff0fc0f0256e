import Unbundle.Proofs.Script.Places
import Unbundle.Proofs.Script.Scan

/-!
The brace that matches another one. Main statement: it is the same whatever stands before the two
braces, and whatever stands behind the line on which the second one closes.
-/

namespace Unbundle.Script

open Ascii

/-- The text up to the end of its first line. A line break behind a backslash does not end a line. -/
def restOfLine : Bytes → Bytes
  | [] => []
  | b :: rest =>
    if b = backslash then
      match rest with
      | [] => [backslash]
      | escaped :: after => backslash :: escaped :: restOfLine after
    else if b = newline ∨ b = carriageReturn then []
    else b :: restOfLine rest

private theorem restOfLine_cons {b : UInt8} (plain : b ≠ backslash) (rest : Bytes) :
    restOfLine (b :: rest) =
      if b = newline ∨ b = carriageReturn then [] else b :: restOfLine rest := by
  cases rest <;> simp [restOfLine, plain]

theorem skipRegex_restOfLine (inClass : Bool) (text : Bytes) :
    skipRegex inClass (restOfLine text) = none ↔ skipRegex inClass text = none := by
  fun_induction skipRegex inClass text with
  | case1 | case2 => simp [restOfLine, skipRegex]
  | case3 inClass b tail ih => simpa [restOfLine, skipRegex] using ih
  | case4 inClass b tail plain broken =>
    rw [restOfLine_cons plain, if_pos broken]
    simp [skipRegex]
  | case5 b tail plain unbroken ih =>
    rw [restOfLine_cons plain, if_neg unbroken, skipRegex_cons plain, if_neg unbroken, if_pos rfl]
    exact ih
  | case6 inClass tail unclassed plain unbroken =>
    rw [restOfLine_cons plain, if_neg unbroken, skipRegex_cons plain, if_neg unbroken,
      if_neg unclassed, if_pos rfl]
    simp
  | case7 inClass b tail plain unbroken unclassed notSlash ih =>
    rw [restOfLine_cons plain, if_neg unbroken, skipRegex_cons plain, if_neg unbroken,
      if_neg unclassed, if_neg notSlash]
    exact ih

variable {frames : List Frame} {text rest other before body : Bytes} {place close : Nat}

private theorem Tame.of_restOfLine (same : restOfLine other = restOfLine text) :
    Tame text other := by
  intro inClass unclosed
  rw [← skipRegex_restOfLine, same, skipRegex_restOfLine]
  exact unclosed

theorem inert_of_line {code behind : Bytes} (plain : ∀ b ∈ code, b ≠ slash ∧ b ≠ backslash)
    (ends : behind = [] ∨ behind.head? = some newline ∨ behind.head? = some carriageReturn) :
    Inert (code ++ behind) := by
  refine inert_append plain ?_
  cases behind with
  | nil => exact fun _ => rfl
  | cons b behind =>
    refine inert_of_lineBreak ?_ behind
    simpa only [List.cons_ne_nil, false_or, List.head?_cons, Option.some.injEq] using ends

/-- Code is closed by a brace. -/
theorem Scans.brace (below : List Frame) {inner : Nat} {history : History}
    (scans : Scans (below ++ [.code inner history]) text [] rest) :
    ∃ code, text = code ++ rightBrace :: rest := by
  generalize opened : below ++ [.code inner history] = frames at scans
  generalize none : [] = last at scans
  induction scans generalizing below inner history with
  | refl => exact absurd (opened.trans none.symm) (by simp)
  | @step frames next last text after rest first onward ih =>
    subst none
    -- Only the last piece can leave no frame; before it the last frame stays one of code.
    have more (above : List Frame) {inner : Nat} {history : History}
        (still : above ++ [.code inner history] = next) :
        ∃ code, text = code ++ rightBrace :: rest := by
      obtain ⟨code, rfl⟩ := ih above still rfl
      obtain ⟨taken, rfl⟩ := first.suffix
      exact ⟨taken ++ code, (List.append_assoc ..).symm⟩
    cases first with
    | @template outer _ stop stopped =>
      cases below with
      | nil => cases opened
      | cons frame below =>
        cases opened
        exact more _ (List.append_assoc ..)
    | @code inner history outer _ piece read =>
      cases below with
      | cons frame below =>
        cases opened
        exact more _ (List.append_assoc ..)
      | nil =>
        cases opened
        obtain ⟨_, rfl⟩ | ⟨rfl, _, rfl⟩ | ⟨_, _, opened⟩ := piece.opened_cases inner history
        · exact more [.template] rfl
        · cases onward with
          | refl => exact ⟨[], Piece.eq_of_read?_mark read⟩
          | step impossible => cases impossible
        · exact more [] (by rw [opened, List.append_nil, List.nil_append])

theorem closeFrame_brace (closed : closeFrame .start [] text = some rest) :
    ∃ body, text = body ++ rightBrace :: rest ∧
      ∀ other, Tame rest other →
        closeFrame .start [] (body ++ rightBrace :: other) = some other := by
  obtain ⟨body, closer, _, same, again⟩ := closeFrame_local closed
  rw [← closeAll_cons, closeAll_eq_some] at closed
  obtain ⟨code, whole⟩ := Scans.brace [] closed
  have brace : closer = rightBrace := by
    have ends := same.symm.trans whole
    rw [List.append_cons, List.append_cons code, List.append_left_inj] at ends
    exact List.singleton_inj.mp (List.append_inj' ends rfl).2
  subst brace
  exact ⟨body, same, again⟩

theorem matchingBrace?_eq_some : matchingBrace? text place = some close ↔
    ∃ before body rest, before.length = place ∧ place + body.length + 1 = close ∧
      text = before ++ leftBrace :: (body ++ rightBrace :: rest) ∧
      closeFrame .start [] (body ++ rightBrace :: rest) = some rest := by
  constructor
  · intro matched
    rw [matchingBrace?] at matched
    cases begun : text.drop place with
    | nil =>
      rw [begun] at matched
      cases matched
    | cons b behind =>
      have found : text[place]? = some b := by
        rw [← List.head?_drop, begun]
        rfl
      obtain ⟨before, _, rfl, rfl⟩ := exists_cut_of_getElem? found
      rw [List.drop_left] at matched
      obtain ⟨rfl, found⟩ := Option.ite_none_right_eq_some.mp matched
      obtain ⟨rest, closed, size⟩ := Option.map_eq_some_iff.mp found
      obtain ⟨body, rfl, _⟩ := closeFrame_brace closed
      refine ⟨before, body, rest, rfl, ?_, rfl, closed⟩
      simp only [List.length_append, List.length_cons] at size
      omega
  · rintro ⟨before, body, rest, rfl, rfl, rfl, closed⟩
    rw [matchingBrace?, List.drop_left]
    dsimp only
    rw [if_pos rfl, closed, Option.map_some]
    simp only [List.length_append, List.length_cons, Option.some.injEq]
    omega

/-- A brace and the one that matches it. The first one opens, the second one closes behind it, and
they still match where anything else stands before them and a line on which no regular expression
can close stands behind them: one without slashes and backslashes up to a line break or the end. No
more than the rest of the line of the second brace counts, whatever stands there. -/
theorem matchingBrace?_local (matched : matchingBrace? text place = some close) :
    text[place]? = some leftBrace ∧ place < close ∧ close < text.length ∧
      text[close]? = some rightBrace ∧
    (∀ before code behind : Bytes, (∀ b ∈ code, b ≠ slash ∧ b ≠ backslash) →
      (behind = [] ∨ behind.head? = some newline ∨ behind.head? = some carriageReturn) →
      matchingBrace? (before ++ text.extract place (close + 1) ++ code ++ behind) before.length =
        some (before.length + (close - place))) ∧
    ∀ before other : Bytes, restOfLine other = restOfLine (text.drop (close + 1)) →
      matchingBrace? (before ++ text.extract place (close + 1) ++ other) before.length =
        some (before.length + (close - place)) := by
  obtain ⟨front, body, rest, rfl, rfl, rfl, closed⟩ := matchingBrace?_eq_some.mp matched
  obtain ⟨_, same, again⟩ := closeFrame_brace closed
  obtain rfl := List.append_cancel_right same
  have whole : front ++ leftBrace :: (body ++ rightBrace :: rest) =
      front ++ (leftBrace :: (body ++ [rightBrace]) ++ rest) := by simp
  have extracted : (front ++ leftBrace :: (body ++ rightBrace :: rest)).extract front.length
      (front.length + body.length + 1 + 1) = leftBrace :: (body ++ [rightBrace]) := by
    rw [List.extract_eq_take_drop, whole, List.drop_left]
    exact List.take_left' (by simp; omega)
  have left : (front ++ leftBrace :: (body ++ rightBrace :: rest)).drop
      (front.length + body.length + 1 + 1) = rest := by
    rw [whole, ← List.append_assoc]
    exact List.drop_left' (by simp; omega)
  have there {before other : Bytes} (tame : Tame rest other) :
      matchingBrace? (before ++ leftBrace :: (body ++ [rightBrace]) ++ other) before.length =
        some (before.length + (front.length + body.length + 1 - front.length)) := by
    refine matchingBrace?_eq_some.mpr ⟨before, body, other, rfl, by omega, ?_, again other tame⟩
    simp only [List.append_assoc, List.cons_append, List.nil_append]
  rw [extracted, left]
  refine ⟨?_, by omega, ?_, ?_, fun before code behind plain ends => ?_, fun before other same => ?_⟩
  · simp
  · simp only [List.length_append, List.length_cons]
    omega
  · rw [Nat.add_assoc, List.getElem?_append_right (by omega), Nat.add_sub_cancel_left,
      List.getElem?_cons_succ]
    simp
  · rw [List.append_assoc _ code]
    exact there ((inert_of_line plain ends).tame rest)
  · exact there (.of_restOfLine same)

/-- A regular expression that could begin between the braces and does not close. -/
theorem matchingBrace?_local_sample :
    let text := utf8 "x\x7ba=/b\x7d+c\n/d\x7d"
    matchingBrace? text 1 = some 6 ∧
      matchingBrace? (utf8 "long" ++ text.extract 1 7 ++ utf8 "-d" ++ utf8 "\r/e\x7d") 4 = some 9 ∧
      matchingBrace? (utf8 "" ++ text.extract 1 7 ++ utf8 "+c\r/d") 0 = some 5 := by
  intro text
  have matched : matchingBrace? text 1 = some 6 := by decide +kernel
  obtain ⟨_, _, _, _, anew, line⟩ := matchingBrace?_local matched
  exact ⟨matched, anew (utf8 "long") (utf8 "-d") (utf8 "\r/e\x7d") (by decide +kernel)
    (.inr (.inr (by decide +kernel))), line (utf8 "") (utf8 "+c\r/d") (by decide +kernel)⟩

/-- The rest of the line does count, and goes on behind a line break that is escaped. -/
example :
    matchingBrace? (utf8 "\x7ba=/b\x7d+c\n/d") 0 = some 5 ∧
      matchingBrace? (utf8 "\x7ba=/b\x7d+c/d") 0 = none ∧
      matchingBrace? (utf8 "\x7ba=/b\x7d+c\\\n/d") 0 = none := by
  decide +kernel

end Unbundle.Script
