import Unbundle.Proofs.Script.Gaps
import Unbundle.Proofs.Script.Scan
import Unbundle.Proofs.Script.Shown

/-!
The grammar of literals, parameter lists and function heads, each as a relation between a text and
what stands behind it. Main statements: the readers read exactly what the grammar says.
-/

namespace Unbundle.Script

open Ascii

variable {text rest after inside : Bytes} {quote b : UInt8}

/-! ### Literals -/

/-- What may stand inside a literal: anything behind a backslash, and otherwise neither the quote
nor a line break. -/
inductive Quotable (quote : UInt8) : Bytes → Prop
  | nil : Quotable quote []
  | plain {b : UInt8} {inside : Bytes} (fresh : b ∉ [quote, newline, backslash])
      (more : Quotable quote inside) : Quotable quote (b :: inside)
  | escaped {b : UInt8} {inside : Bytes} (more : Quotable quote inside) :
      Quotable quote (backslash :: b :: inside)

/-- A literal in quotes of either kind. -/
inductive Quoted : Bytes → Bytes → Prop
  | literal {quote : UInt8} {inside rest : Bytes} (quotes : isQuote quote = true)
      (quotable : Quotable quote inside) : Quoted (quote :: (inside ++ quote :: rest)) rest

theorem ne_backslash (quotes : isQuote quote = true) : quote ≠ backslash := by
  rintro rfl
  cases quotes

theorem Quotable.append {digits : Bytes} (plain : ∀ b ∈ digits, b ∉ [quote, newline, backslash])
    (quotable : Quotable quote inside) : Quotable quote (digits ++ inside) := by
  induction digits with
  | nil => exact quotable
  | cons b digits ih =>
    exact .plain (plain b (List.mem_cons_self ..))
      (ih fun c member => plain c (List.mem_cons_of_mem _ member))

namespace Literal

private theorem hexNumber?_append {digits value unit : Nat}
    (found : hexNumber? digits value text = some (unit, rest)) :
    ∃ spelled, text = spelled ++ rest ∧ ∀ b ∈ spelled, hexValue? b ≠ none := by
  fun_induction hexNumber? digits value text with
  | case1 =>
    cases found
    exact ⟨[], rfl, by simp⟩
  | case2 | case3 => cases found
  | case4 value digits b text digit read ih =>
    obtain ⟨spelled, rfl, hex⟩ := ih found
    refine ⟨b :: spelled, rfl, fun c member => ?_⟩
    rcases List.mem_cons.mp member with rfl | member
    · rw [read]
      exact Option.some_ne_none _
    · exact hex c member

theorem escape_append (letter : UInt8) (text : Bytes) :
    ∃ digits, text = digits ++ (escape letter text).2 ∧ ∀ b ∈ digits, hexValue? b ≠ none := by
  have none : ∃ digits, text = digits ++ text ∧ ∀ b ∈ digits, hexValue? b ≠ none :=
    ⟨[], rfl, nofun⟩
  simp only [escape]
  split
  · next number =>
    split at number
    · exact hexNumber?_append number
    · split at number
      · exact hexNumber?_append number
      · cases number
  · split <;> exact none

/-- No digit closes a literal or begins another escape. -/
theorem plain_of_hexValue? (quotes : isQuote quote = true) (hex : hexValue? b ≠ none) :
    b ∉ [quote, newline, backslash] := by
  intro special
  simp only [isQuote, Bool.or_eq_true, decide_eq_true_eq] at quotes
  simp only [List.mem_cons, List.not_mem_nil, or_false] at special
  rcases special with rfl | rfl | rfl
  · rcases quotes with rfl | rfl <;> exact hex rfl
  · exact hex rfl
  · exact hex rfl

theorem read?_append {digits : Bytes} (plain : ∀ b ∈ digits, b ∉ [quote, newline, backslash])
    (text : Bytes) : read? quote (digits ++ text) =
      (read? quote text).map fun (spelled, after) => (digits ++ spelled, after) := by
  induction digits with
  | nil => simp
  | cons b digits ih =>
    have fresh := plain b (List.mem_cons_self ..)
    simp only [List.mem_cons, List.not_mem_nil, or_false, not_or] at fresh
    rw [List.cons_append, read?_cons fresh.2.2, if_neg fresh.1, if_neg fresh.2.1,
      ih fun c member => plain c (List.mem_cons_of_mem _ member), Option.map_map]
    rfl

theorem hexNumber?_append_cons (quotes : isQuote quote = true) (digits value : Nat)
    (inside rest : Bytes) : hexNumber? digits value (inside ++ quote :: rest) =
      (hexNumber? digits value inside).map fun (unit, after) => (unit, after ++ quote :: rest) := by
  fun_induction hexNumber? digits value inside with
  | case1 => rfl
  | case2 value digits =>
    have noDigit : hexValue? quote = none := by
      by_contra hex
      exact absurd (by simp) (plain_of_hexValue? quotes hex)
    rw [List.nil_append, hexNumber?, noDigit]
    rfl
  | case3 value digits b inside noDigit => simp [hexNumber?, noDigit]
  | case4 value digits b inside digit read ih => simpa [hexNumber?, read] using ih

private theorem escape_append_cons (quotes : isQuote quote = true) (letter : UInt8)
    (inside rest : Bytes) :
    escape letter (inside ++ quote :: rest) =
      ((escape letter inside).1, (escape letter inside).2 ++ quote :: rest) := by
  have number : (if letter = 0x78 then hexNumber? 2 0 (inside ++ quote :: rest)
      else if letter = 0x75 then hexNumber? 4 0 (inside ++ quote :: rest) else none) =
      (if letter = 0x78 then hexNumber? 2 0 inside
        else if letter = 0x75 then hexNumber? 4 0 inside else none).map
          fun (unit, after) => (unit, after ++ quote :: rest) := by
    rw [hexNumber?_append_cons quotes, hexNumber?_append_cons quotes]
    split
    · rfl
    · split <;> rfl
  simp only [escape, number]
  cases (if letter = 0x78 then hexNumber? 2 0 inside
    else if letter = 0x75 then hexNumber? 4 0 inside else none) with
  | none => by_cases breaks : letter = newline <;> simp [breaks]
  | some pair => rfl

/-- What a literal spells does not depend on what stands behind it. -/
theorem read?_quotable (quotes : isQuote quote = true) (quotable : Quotable quote inside) :
    ∃ spelled, ∀ rest, read? quote (inside ++ quote :: rest) = some (spelled, rest) := by
  have noBackslash := ne_backslash quotes
  induction quotable with
  | nil => exact ⟨[], fun rest => by rw [List.nil_append, read?_cons noBackslash, if_pos rfl]⟩
  | @plain b inside fresh more ih =>
    obtain ⟨spelled, read⟩ := ih
    have plain : ∀ c ∈ [b], c ∉ [quote, newline, backslash] := by simpa using fresh
    refine ⟨b :: spelled, fun rest => ?_⟩
    rw [← List.singleton_append, List.append_assoc, read?_append plain, read]
    rfl
  | @escaped b inside more ih =>
    obtain ⟨spelled, read⟩ := ih
    obtain ⟨digits, same, hex⟩ := escape_append b inside
    have plain : ∀ c ∈ digits, c ∉ [quote, newline, backslash] :=
      fun c member => plain_of_hexValue? quotes (hex c member)
    have behind (rest : Bytes) : read? quote ((escape b inside).2 ++ quote :: rest) =
        some (spelled.drop digits.length, rest) := by
      have whole := read rest
      rw [same, List.append_assoc, read?_append plain] at whole
      obtain ⟨⟨more, after⟩, found, split⟩ := Option.map_eq_some_iff.mp whole
      cases split
      rw [found, List.drop_left]
    refine ⟨(escape b inside).1 ++ spelled.drop digits.length, fun rest => ?_⟩
    rw [List.cons_append, List.cons_append, read?_escape noBackslash, escape_append_cons quotes,
      behind]
    rfl

theorem quotable_of_read? {spelled : Bytes} (quotes : isQuote quote = true)
    (found : read? quote text = some (spelled, rest)) :
    ∃ inside, Quotable quote inside ∧ text = inside ++ quote :: rest := by
  fun_induction read? quote text generalizing spelled with
  | case1 | case3 | case4 => cases found
  | case2 text =>
    cases found
    exact ⟨[], .nil, rfl⟩
  | case5 letter text _ _ ih =>
    obtain ⟨⟨more, after⟩, read, split⟩ := Option.map_eq_some_iff.mp found
    cases split
    obtain ⟨inside, quotable, same⟩ := ih read
    obtain ⟨digits, whole, hex⟩ := escape_append letter text
    refine ⟨backslash :: letter :: (digits ++ inside), .escaped (quotable.append fun c member =>
      plain_of_hexValue? quotes (hex c member)), ?_⟩
    rw [same] at whole
    rw [whole, List.cons_append, List.cons_append, List.append_assoc]
  | case6 b text noQuote noBreak noBackslash ih =>
    obtain ⟨⟨more, after⟩, read, split⟩ := Option.map_eq_some_iff.mp found
    cases split
    obtain ⟨inside, quotable, rfl⟩ := ih read
    exact ⟨b :: inside, .plain (by simp [noQuote, noBreak, noBackslash]) quotable, rfl⟩

end Literal

/-- A literal is read exactly where one stands. -/
theorem quoted_iff : Quoted text rest ↔ ∃ spelled, Literal.quoted? text = some (spelled, rest) := by
  constructor
  · rintro ⟨quotes, quotable⟩
    obtain ⟨spelled, read⟩ := Literal.read?_quotable quotes quotable
    exact ⟨spelled, by rw [Literal.quoted?, if_pos quotes, read]⟩
  · rintro ⟨spelled, found⟩
    cases text with
    | nil => cases found
    | cons quote text =>
      simp only [Literal.quoted?, Option.ite_none_right_eq_some] at found
      obtain ⟨inside, quotable, rfl⟩ := Literal.quotable_of_read? found.1 found.2
      exact .literal found.1 quotable

/-! ### Parentheses -/

/-- Code behind open parentheses up to the one that closes the outermost of them. Blocks and
templates in it are closed each on its own. -/
inductive Enclosed : History → Bytes → Bytes → Prop
  | close {history : History} {text rest : Bytes}
      (read : Piece.read? history.divides text = some (.mark rightParen rest))
      (last : history.openParens.length = 1) : Enclosed history text rest
  | block {history : History} {text inside after rest : Bytes}
      (read : Piece.read? history.divides text = some (.mark leftBrace inside))
      (closed : Scans [.start] inside [] after) (onward : Enclosed history.blockValue after rest) :
      Enclosed history text rest
  | template {history : History} {text inside after rest : Bytes}
      (read : Piece.read? history.divides text = some (.template inside))
      (closed : Scans [.template] inside [] after)
      (onward : Enclosed history.operand after rest) : Enclosed history text rest
  | piece {history : History} {text rest : Bytes} {piece : Piece}
      (read : Piece.read? history.divides text = some piece)
      (noTemplate : ∀ inside, piece ≠ .template inside)
      (noBlock : ∀ inside, piece ≠ .mark leftBrace inside)
      (inner : ∀ behind, piece = .mark rightParen behind → history.openParens.length ≠ 1)
      (onward : Enclosed (history.after piece) piece.rest rest) : Enclosed history text rest

/-- How a scan for a closing parenthesis goes on after a piece. -/
def resumeParens (history : History) : Piece → Option Bytes
  | .template rest => (closeFrame .template [] rest).bind (closeParens history.operand)
  | .mark b rest =>
    if b = leftBrace then (closeFrame .start [] rest).bind (closeParens history.blockValue)
    else if b = rightParen ∧ history.openParens.length = 1 then some rest
    else closeParens (history.mark b) rest
  | piece => closeParens (history.after piece) piece.rest

private theorem closeParens_read {history : History} {piece : Piece}
    (read : Piece.read? history.divides text = some piece) :
    closeParens history text = resumeParens history piece := by
  rw [closeParens]
  split
  · next unread => cases read.symm.trans unread
  · next found =>
    cases read.symm.trans found
    rw [resumeParens]
    split <;> next closed => rw [closed]; rfl
  · next found =>
    cases read.symm.trans found
    rw [resumeParens]
    split
    · split <;> next closed => rw [closed]; rfl
    · rfl
  · next noTemplate noMark found =>
    cases read.symm.trans found
    cases piece with
    | template rest => exact absurd rfl (noTemplate rest)
    | mark b rest => exact absurd rfl (noMark b rest)
    | gap | literal | word | increment => rfl

private theorem closeFrame_eq_some {frame : Frame} {outer : List Frame} :
    closeFrame frame outer text = some rest ↔ Scans (frame :: outer) text [] rest := by
  rw [← closeAll_cons, closeAll_eq_some]

theorem Enclosed.closeParens_eq {history : History} (enclosed : Enclosed history text rest) :
    closeParens history text = some rest := by
  induction enclosed with
  | close read last =>
    rw [closeParens_read read, resumeParens, if_neg (by decide), if_pos ⟨rfl, last⟩]
  | block read closed onward ih =>
    rw [closeParens_read read, resumeParens, if_pos rfl, closeFrame_eq_some.mpr closed]
    exact ih
  | template read closed onward ih =>
    rw [closeParens_read read, resumeParens, closeFrame_eq_some.mpr closed]
    exact ih
  | @piece history text rest piece read noTemplate noBlock inner onward ih =>
    rw [closeParens_read read]
    cases piece with
    | template inside => exact absurd rfl (noTemplate inside)
    | mark b behind =>
      have opens : b ≠ leftBrace := fun same => noBlock behind (same ▸ rfl)
      have closes : ¬(b = rightParen ∧ history.openParens.length = 1) :=
        fun ⟨same, last⟩ => inner behind (same ▸ rfl) last
      rw [resumeParens, if_neg opens, if_neg closes]
      exact ih
    | gap | literal | word | increment => exact ih

theorem enclosed_iff {history : History} :
    Enclosed history text rest ↔ closeParens history text = some rest := by
  refine ⟨Enclosed.closeParens_eq, fun closed => ?_⟩
  fun_induction closeParens history text with
  | case1 | case2 | case4 => cases closed
  | case3 history text inside read after found ih =>
    exact .template read (closeFrame_eq_some.mp found) (ih closed)
  | case5 history text inside after found read ih =>
    exact .block read (closeFrame_eq_some.mp found) (ih closed)
  | case6 history text b behind read opens closes =>
    cases closed
    obtain ⟨rfl, last⟩ := closes
    exact .close read last
  | case7 history text b behind read opens open_ ih =>
    refine .piece read (by simp) (fun inside same => opens (Piece.mark.inj same).1)
      (fun after same last => open_ ⟨(Piece.mark.inj same).1, last⟩) (ih closed)
  | case8 history text piece noTemplate noMark read ih =>
    exact .piece read noTemplate (fun inside => noMark leftBrace inside)
      (fun behind same => absurd same (noMark rightParen behind)) (ih closed)

/-! ### Functions -/

/-- The star that makes a function a generator may stand here. -/
inductive Starred : Bytes → Bytes → Prop
  | plain (text : Bytes) : Starred text text
  | star {text rest : Bytes} (gap : Gaps text rest) : Starred (star :: text) rest

/-- The parameters of an arrow function: a list in parentheses, or one name. -/
inductive ArrowParameters : Bytes → Bytes → Prop
  | list {inside rest : Bytes} (enclosed : Enclosed ({} : History).openParen inside rest) :
      ArrowParameters (leftParen :: inside) rest
  | name {text name rest : Bytes} {b : UInt8} (word : Word.split text = (b :: name, rest))
      (start : Word.isStart b = true) (other : b :: name ≠ utf8 "function") :
      ArrowParameters text rest

/-- A function literal up to the inside of its body: one with a keyword, which may be a generator
and may have a name, or an arrow function. -/
inductive FunctionHead : Bytes → Bytes → Prop
  | keyword {text behind start generator name called list past rest : Bytes}
      (keyword : Word.split text = (utf8 "function", behind)) (gap : Gaps behind start)
      (star : Starred start generator) (word : Word.split generator = (name, called))
      (next : Gaps called (leftParen :: list))
      (parameters : Enclosed ({} : History).openParen list past)
      (body : Gaps past (leftBrace :: rest)) : FunctionHead text rest
  | arrow {text past behind rest : Bytes} (parameters : ArrowParameters text past)
      (next : Gaps past (equals :: greater :: behind)) (body : Gaps behind (leftBrace :: rest)) :
      FunctionHead text rest

private theorem expect?_iff : expect? b text = some rest ↔ text = b :: rest :=
  ⟨expect?_eq_some, fun same => by rw [same, expect?, if_pos rfl]⟩

theorem expect?_gaps : expect? b (skipGaps text) = some rest ↔ Gaps text (b :: rest) :=
  expect?_iff.trans gaps_iff.symm

namespace Factory

private theorem parameters?_iff : parameters? text = some rest ↔
    ∃ inside, text = leftParen :: inside ∧ Enclosed ({} : History).openParen inside rest := by
  simp only [parameters?, Option.bind_eq_some_iff, expect?_iff, enclosed_iff]

/-- The text behind the star of a generator, if there is one. -/
private def behindStar (text : Bytes) : Bytes := ((expect? star text).map skipGaps).getD text

private theorem starred_behindStar (text : Bytes) : Starred text (behindStar text) := by
  rw [behindStar]
  cases found : expect? star text with
  | none => exact .plain text
  | some rest =>
    obtain rfl := expect?_iff.mp found
    exact .star (gaps_skipGaps rest)

/-- A star that is not read as that of a generator is followed by no list of parameters. -/
private theorem eq_behindStar {list : Bytes} (starred : Starred text after)
    (next : Gaps (Word.split after).2 (leftParen :: list)) : behindStar text = after := by
  cases starred with
  | star gap => exact gap.skipGaps_eq
  | plain =>
    rw [behindStar]
    cases found : expect? Ascii.star text with
    | none => rfl
    | some rest =>
      obtain rfl := expect?_iff.mp found
      rw [Word.split_outside rfl] at next
      cases (skipGaps_cons rfl rest).symm.trans next.skipGaps_eq

private theorem named?_iff : named? text = some rest ↔
    ∃ start generator name called list past, Gaps text start ∧ Starred start generator ∧
      Word.split generator = (name, called) ∧ Gaps called (leftParen :: list) ∧
      Enclosed ({} : History).openParen list past ∧ Gaps past (leftBrace :: rest) := by
  have unfolded : named? text = some rest ↔ ∃ list past,
      Gaps (Word.split (behindStar (skipGaps text))).2 (leftParen :: list) ∧
        Enclosed ({} : History).openParen list past ∧ Gaps past (leftBrace :: rest) := by
    change (parameters? (skipGaps (Word.split (behindStar (skipGaps text))).2)).bind body? =
      some rest ↔ _
    simp only [Option.bind_eq_some_iff, parameters?_iff, body?, expect?_gaps, ← gaps_iff]
    constructor
    · rintro ⟨past, ⟨list, next, parameters⟩, body⟩
      exact ⟨list, past, next, parameters, body⟩
    · rintro ⟨list, past, next, parameters, body⟩
      exact ⟨past, ⟨list, next, parameters⟩, body⟩
  rw [unfolded]
  constructor
  · rintro ⟨list, past, next, parameters, body⟩
    exact ⟨_, _, _, _, list, past, gaps_skipGaps text, starred_behindStar _, rfl, next, parameters,
      body⟩
  · rintro ⟨start, generator, name, called, list, past, gap, starred, word, next, parameters, body⟩
    have behind : (Word.split generator).2 = called := by rw [word]
    subst behind
    refine ⟨list, past, ?_, parameters, body⟩
    rwa [gap.skipGaps_eq, eq_behindStar starred next]

private theorem arrowParameters?_iff (other : (Word.split text).1 ≠ utf8 "function") :
    arrowParameters? text = some rest ↔ ArrowParameters text rest := by
  constructor
  · intro found
    cases text with
    | nil => cases found
    | cons b tail =>
      rw [arrowParameters?] at found
      by_cases list : b = leftParen
      · subst list
        rw [if_pos rfl] at found
        obtain ⟨inside, same, enclosed⟩ := parameters?_iff.mp found
        cases same
        exact .list enclosed
      · rw [if_neg list] at found
        simp only [Option.ite_none_right_eq_some, Bool.and_eq_true, Bool.not_eq_true',
          Option.some.injEq] at found
        obtain ⟨⟨start, solid⟩, rfl⟩ := found
        have word := Word.split_part (Word.isPart_of_isStart start) solid
        rw [word] at other ⊢
        exact .name word start other
  · intro parameters
    cases parameters with
    | list enclosed =>
      rw [arrowParameters?, if_pos rfl]
      exact parameters?_iff.mpr ⟨_, rfl, enclosed⟩
    | @name _ name _ b word start _ =>
      obtain ⟨tail, rfl, solid, _⟩ := Word.eq_cons_of_split word
      have noList : b ≠ leftParen := by
        rintro rfl
        cases start
      rw [arrowParameters?, if_neg noList, start, solid, word]
      rfl

private theorem arrow?_iff (other : (Word.split text).1 ≠ utf8 "function") :
    arrow? text = some rest ↔
      ∃ past behind, ArrowParameters text past ∧ Gaps past (equals :: greater :: behind) ∧
        Gaps behind (leftBrace :: rest) := by
  simp only [arrow?, Option.bind_eq_bind, Option.bind_eq_some_iff, arrowParameters?_iff other,
    body?, expect?_gaps]
  simp only [expect?_iff]
  constructor
  · rintro ⟨past, parameters, _, next, behind, rfl, body⟩
    exact ⟨past, behind, parameters, next, body⟩
  · rintro ⟨past, behind, parameters, next, body⟩
    exact ⟨past, parameters, _, next, behind, rfl, body⟩

end Factory

theorem ArrowParameters.other (parameters : ArrowParameters text rest) :
    (Word.split text).1 ≠ utf8 "function" := by
  cases parameters with
  | list =>
    have nonempty : [] ≠ utf8 "function" := by decide +kernel
    rwa [Word.split_outside rfl]
  | name word start other => rwa [word]

/-- A function literal is read exactly where one stands. -/
theorem functionHead_iff : FunctionHead text rest ↔ Factory.read? text = some rest := by
  rw [Factory.read?]
  constructor
  · intro head
    cases head with
    | keyword keyword gap star word next parameters body =>
      rw [keyword]
      exact (if_pos rfl).trans
        (Factory.named?_iff.mpr ⟨_, _, _, _, _, _, gap, star, word, next, parameters, body⟩)
    | arrow parameters next body =>
      exact (if_neg parameters.other).trans
        ((Factory.arrow?_iff parameters.other).mpr ⟨_, _, parameters, next, body⟩)
  · intro read
    by_cases keyword : (Word.split text).1 = utf8 "function"
    · obtain ⟨start, generator, name, called, list, past, gap, star, word, next, parameters, body⟩ :=
        Factory.named?_iff.mp ((if_pos keyword).symm.trans read)
      exact .keyword (Prod.ext keyword rfl) gap star word next parameters body
    · obtain ⟨past, behind, parameters, next, body⟩ :=
        (Factory.arrow?_iff keyword).mp ((if_neg keyword).symm.trans read)
      exact .arrow parameters next body

end Unbundle.Script
