import Unbundle.Proofs.Script.Step
import Mathlib.Data.List.Basic

/-!
What reading a piece of code depends on. Main statement: a piece that ends before a stop is read
alike before every text in which no further regular expression could close.
-/

namespace Unbundle.Script

open Ascii

/-- A slash before the text cannot begin a regular expression that ends inside it. -/
def Inert (text : Bytes) : Prop := ∀ inClass, skipRegex inClass text = none

theorem inert_of_lineBreak {b : UInt8} (breaks : b = newline ∨ b = carriageReturn) (text : Bytes) :
    Inert (b :: text) := by
  intro inClass
  have plain : b ≠ backslash := by rcases breaks with rfl | rfl <;> decide
  rw [skipRegex_cons plain, if_pos breaks]

/-- Code without slashes and backslashes neither closes a regular expression nor hides the line
break that ends it. -/
theorem inert_append {code text : Bytes} (plain : ∀ b ∈ code, b ≠ slash ∧ b ≠ backslash)
    (inert : Inert text) : Inert (code ++ text) := by
  intro inClass
  induction code generalizing inClass with
  | nil => exact inert inClass
  | cons b code ih =>
    obtain ⟨notSlash, notBackslash⟩ := plain b (by simp)
    have rest := ih fun c member => plain c (by simp [member])
    rw [List.cons_append, skipRegex_cons notBackslash]
    simp only [notSlash, if_false, rest, ite_self]

/-- A regular expression that does not close in the first text does not close in the second one
either. -/
def Tame (text other : Bytes) : Prop :=
  ∀ inClass, skipRegex inClass text = none → skipRegex inClass other = none

theorem Inert.tame {other : Bytes} (inert : Inert other) (text : Bytes) : Tame text other :=
  fun inClass _ => inert inClass

/-- A byte that ends whatever began before it, or lies inside: no blank and no word holds it, and no
comment, regular expression, escape or doubled operator begins with it. -/
structure Stop (stop : UInt8) : Prop where
  unblank : ∀ spelling ∈ blanks, stop ∉ spelling
  outside : Word.isPart stop = false
  plain : stop ∉ [slash, backslash, star, plus, minus]

/-- The bytes that can close balanced code or a template. -/
def isCloser (b : UInt8) : Bool := b = rightBrace || b = backtick

variable {closer stop : UInt8}

private theorem eq_of_isCloser (closes : isCloser closer = true) :
    closer = rightBrace ∨ closer = backtick := by simpa [isCloser] using closes

theorem Stop.of_isCloser (closes : isCloser closer = true) : Stop closer := by
  rcases eq_of_isCloser closes with rfl | rfl <;> exact ⟨by decide, by decide, by decide⟩

private theorem Stop.ne (stops : Stop stop) {b : UInt8}
    (special : b ∈ [slash, backslash, star, plus, minus]) :
    stop ≠ b :=
  fun same => stops.plain (same ▸ special)

theorem Stop.unbroken (stops : Stop stop) : ¬(stop = newline ∨ stop = carriageReturn) := by
  rintro (rfl | rfl)
  · exact stops.unblank [newline] (by decide) (List.mem_singleton_self _)
  · exact stops.unblank [carriageReturn] (by decide) (List.mem_singleton_self _)

private theorem isPrefixOf?_append_cons {spelling : Bytes} (absent : stop ∉ spelling)
    (text rest : Bytes) : spelling.isPrefixOf? (text ++ stop :: rest) =
      (spelling.isPrefixOf? text).map (· ++ stop :: rest) := by
  induction spelling generalizing text with
  | nil => simp [List.isPrefixOf?]
  | cons b spelling ih =>
    simp only [List.mem_cons, not_or] at absent
    cases text with
    | nil => simp [List.isPrefixOf?, Ne.symm absent.1]
    | cons c text =>
      by_cases same : b = c
      · simpa [List.isPrefixOf?, same] using ih absent.2 text
      · simp [List.isPrefixOf?, same]

/-- Whether a blank stands before a stop is settled before it. -/
theorem blank?_append_cons (stops : Stop stop) (text rest : Bytes) :
    blank? (text ++ stop :: rest) = (blank? text).map (· ++ stop :: rest) := by
  have absent := stops.unblank
  simp only [blank?, List.map_findSome?]
  generalize blanks = spellings at absent
  induction spellings with
  | nil => rfl
  | cons spelling spellings ih =>
    simp only [List.findSome?_cons, Function.comp_apply,
      isPrefixOf?_append_cons (absent spelling (by simp)),
      ih fun other member => absent other (by simp [member])]

private theorem isBlank_append_cons (stops : Stop stop) (text rest : Bytes) :
    isBlank (text ++ stop :: rest) = isBlank text := by
  simp [isBlank, blank?_append_cons stops]

private theorem blank?_stop (stops : Stop stop) (rest : Bytes) : blank? (stop :: rest) = none := by
  have empty : blank? [] = none := by decide
  simpa [empty] using blank?_append_cons stops [] rest

/-- No word goes on past a stop. -/
theorem Word.split_append_cons (stops : Stop stop) (text rest : Bytes) :
    split (text ++ stop :: rest) = ((split text).1, (split text).2 ++ stop :: rest) := by
  induction text with
  | nil => simp [split, stops.outside]
  | cons b text ih =>
    have blank := isBlank_append_cons stops (b :: text) rest
    simp only [List.cons_append] at blank
    simp only [List.cons_append, split, blank, ih]
    split <;> rfl

theorem lineEnd_append_cons (stops : Stop stop) (text rest : Bytes) :
    lineEnd (text ++ stop :: rest) =
      if newline ∈ text then lineEnd text ++ stop :: rest else lineEnd rest := by
  have different : stop ≠ newline := fun same => stops.unbroken (.inl same)
  induction text with
  | nil => simp [lineEnd, different]
  | cons b text ih =>
    by_cases same : b = newline
    · simp [lineEnd, same]
    · simpa [lineEnd, same, Ne.symm same] using ih

theorem skipRegex_append_cons (stops : Stop stop) {inClass : Bool}
    {text after : Bytes} (found : skipRegex inClass text = some after) (rest : Bytes) :
    skipRegex inClass (text ++ stop :: rest) = some (after ++ stop :: rest) := by
  fun_induction skipRegex inClass text with
  | case1 | case2 | case4 => simp at found
  | case3 inClass b tail ih => simpa [skipRegex] using ih found
  | case5 b tail plain unbroken ih =>
    rw [List.cons_append, skipRegex_cons plain, if_neg unbroken]
    exact ih found
  | case6 inClass tail unclassed plain unbroken =>
    cases found
    rw [List.cons_append, skipRegex_cons plain, if_neg unbroken, if_neg unclassed, if_pos rfl,
      Word.split_append_cons stops]
  | case7 inClass b tail plain unbroken unclassed notSlash ih =>
    rw [List.cons_append, skipRegex_cons plain, if_neg unbroken, if_neg unclassed, if_neg notSlash]
    exact ih found

theorem skipRegex_open (stops : Stop stop) {inClass : Bool} {text : Bytes}
    (unclosed : skipRegex inClass text = none) :
    (∀ rest, skipRegex inClass (text ++ stop :: rest) = none) ∨
      ∃ inside, ∀ rest, skipRegex inClass (text ++ stop :: rest) = skipRegex inside rest := by
  have plainStop : stop ≠ backslash := stops.ne (by decide)
  have notSlash : stop ≠ slash := stops.ne (by decide)
  fun_induction skipRegex inClass text with
  | case1 inClass =>
    right
    cases inClass with
    | true =>
      refine ⟨stop ≠ rightBracket, fun rest => ?_⟩
      rw [List.nil_append, skipRegex_cons plainStop, if_neg stops.unbroken, if_pos rfl]
    | false =>
      refine ⟨stop = leftBracket, fun rest => ?_⟩
      rw [List.nil_append, skipRegex_cons plainStop, if_neg stops.unbroken,
        if_neg Bool.false_ne_true, if_neg notSlash]
  | case2 inClass => exact .inr ⟨inClass, fun rest => by simp [skipRegex]⟩
  | case3 inClass b tail ih => simpa [skipRegex] using ih unclosed
  | case4 inClass b tail plain broken =>
    refine .inl fun rest => ?_
    rw [List.cons_append, skipRegex_cons plain, if_pos broken]
  | case5 b tail plain unbroken ih =>
    have step (rest : Bytes) : skipRegex true (b :: tail ++ stop :: rest) =
        skipRegex (b ≠ rightBracket) (tail ++ stop :: rest) := by
      rw [List.cons_append, skipRegex_cons plain, if_neg unbroken, if_pos rfl]
    simpa only [step] using ih unclosed
  | case6 => simp at unclosed
  | case7 inClass b tail plain unbroken unclassed notSlash ih =>
    have step (rest : Bytes) : skipRegex inClass (b :: tail ++ stop :: rest) =
        skipRegex (b = leftBracket) (tail ++ stop :: rest) := by
      rw [List.cons_append, skipRegex_cons plain, if_neg unbroken, if_neg unclassed,
        if_neg notSlash]
    simpa only [step] using ih unclosed

theorem Tame.append (stops : Stop stop) {rest other : Bytes} (tame : Tame rest other)
    (text : Bytes) : Tame (text ++ stop :: rest) (text ++ stop :: other) := by
  intro inClass unclosed
  cases alone : skipRegex inClass text with
  | some after =>
    rw [skipRegex_append_cons stops alone] at unclosed
    cases unclosed
  | none =>
    rcases skipRegex_open stops alone with never | ⟨inside, onward⟩
    · exact never other
    · rw [onward] at unclosed ⊢
      exact tame inside unclosed

/-- A regular expression that ends before a stop ends there whatever follows. -/
theorem skipRegex_of_append_cons (stops : Stop stop) {inClass : Bool}
    {text after rest : Bytes}
    (found : skipRegex inClass (text ++ stop :: rest) = some (after ++ stop :: rest)) :
    skipRegex inClass text = some after := by
  cases alone : skipRegex inClass text with
  | some before =>
    rw [skipRegex_append_cons stops alone] at found
    rw [List.append_cancel_right (Option.some.inj found)]
  | none =>
    rcases skipRegex_open stops alone with never | ⟨inside, onward⟩
    · simp [never] at found
    · rw [onward] at found
      have := (skipRegex_suffix found).length_le
      simp only [List.length_append, List.length_cons] at this
      omega

/-- The same skip, whatever follows the text that it has passed over. -/
theorem skipQuoted_local {quote : UInt8} {text rest : Bytes}
    (found : skipQuoted quote text = some rest) :
    ∃ taken, text = taken ++ rest ∧ ∀ other, skipQuoted quote (taken ++ other) = some other := by
  fun_induction skipQuoted quote text with
  | case1 | case2 => simp at found
  | case3 b after ih =>
    obtain ⟨taken, rfl, same⟩ := ih found
    exact ⟨backslash :: b :: taken, rfl, fun other => by simpa [skipQuoted] using same other⟩
  | case4 tail plain =>
    cases found
    refine ⟨[quote], rfl, fun other => ?_⟩
    rw [List.singleton_append, skipQuoted_cons plain, if_pos rfl]
  | case5 b tail plain inside ih =>
    obtain ⟨taken, rfl, same⟩ := ih found
    refine ⟨b :: taken, rfl, fun other => ?_⟩
    rw [List.cons_append, skipQuoted_cons plain, if_neg inside, same]

theorem blockEnd?_local {text rest : Bytes} (found : blockEnd? text = some rest) :
    ∃ taken, text = taken ++ rest ∧ ∀ other, blockEnd? (taken ++ other) = some other := by
  fun_induction blockEnd? text with
  | case1 => simp at found
  | case2 b tail closes =>
    cases found
    obtain ⟨rfl, head⟩ := closes
    obtain ⟨after, rfl⟩ := List.head?_eq_some_iff.mp head
    exact ⟨[star, slash], rfl, fun other => by simp [blockEnd?]⟩
  | case3 b tail inside ih =>
    obtain ⟨taken, rfl, same⟩ := ih found
    refine ⟨b :: taken, rfl, fun other => ?_⟩
    cases taken with
    | nil =>
      have := same []
      simp [blockEnd?] at this
    | cons c taken =>
      simp only [List.cons_append, List.head?_cons] at inside same ⊢
      rw [blockEnd?, List.head?_cons, if_neg inside, same]

/-- How the literal part of a template ends, and that nothing behind it matters. -/
theorem templateStop?_local {text : Bytes} {stop : TemplateStop}
    (found : templateStop? text = some stop) :
    ∃ taken, (∃ rest, stop = .closed rest ∧ text = taken ++ backtick :: rest ∧
        ∀ other, templateStop? (taken ++ backtick :: other) = some (.closed other)) ∨
      ∃ rest, stop = .expression rest ∧ text = taken ++ dollar :: leftBrace :: rest ∧
        ∀ other, templateStop? (taken ++ dollar :: leftBrace :: other) =
          some (.expression other) := by
  fun_induction templateStop? text with
  | case1 | case2 => simp at found
  | case3 b after ih =>
    obtain ⟨taken, ends⟩ := ih found
    refine ⟨backslash :: b :: taken, ?_⟩
    simpa [templateStop?] using ends
  | case4 tail plain =>
    cases found
    exact ⟨[], .inl ⟨tail, rfl, rfl, fun other => templateStop?_cons plain other⟩⟩
  | case5 b tail plain unclosed opens =>
    cases found
    obtain ⟨rfl, head⟩ := opens
    obtain ⟨after, rfl⟩ := List.head?_eq_some_iff.mp head
    refine ⟨[], .inr ⟨after, rfl, rfl, fun other => ?_⟩⟩
    simp [templateStop?_cons plain, unclosed]
  | case6 b tail plain unclosed inside ih =>
    have step {c : UInt8} {taken rest : Bytes} (same : tail = taken ++ c :: rest) (other : Bytes) :
        templateStop? (b :: (taken ++ c :: other)) = templateStop? (taken ++ c :: other) := by
      have inside : ¬(b = dollar ∧ (taken ++ c :: other).head? = some leftBrace) := by
        simpa [same, List.head?_append] using inside
      rw [templateStop?_cons plain, if_neg unclosed, if_neg inside]
    obtain ⟨taken, ⟨rest, rfl, same, closed⟩ | ⟨rest, rfl, same, opened⟩⟩ := ih found
    · exact ⟨b :: taken, .inl ⟨rest, rfl, by rw [same, List.cons_append],
        fun other => (step same other).trans (closed other)⟩⟩
    · exact ⟨b :: taken, .inr ⟨rest, rfl, by rw [same, List.cons_append],
        fun other => (step same (leftBrace :: other)).trans (opened other)⟩⟩

namespace Piece

/-- The same piece before another text. -/
def withRest : Piece → Bytes → Piece
  | gap _, rest => gap rest
  | literal _, rest => literal rest
  | template _, rest => template rest
  | word text _, rest => word text rest
  | increment _, rest => increment rest
  | mark b _, rest => mark b rest

theorem read?_closer (closes : isCloser closer = true) (divides : Bool) (rest : Bytes) :
    read? divides (closer :: rest) =
      if closer = backtick then some (template rest) else some (mark closer rest) := by
  have solid := blank?_stop (Stop.of_isCloser closes)
  rcases eq_of_isCloser closes with rfl | rfl <;> simp +decide [read?, solid]

private theorem eq_of_ofSlash_mark {divides : Bool} {text behind : Bytes} {b : UInt8}
    (read : ofSlash divides text = some (mark b behind)) : b = slash ∧ behind = text := by
  simp only [ofSlash] at read
  split at read
  · cases read
  · split at read
    · obtain ⟨_, _, impossible⟩ := Option.map_eq_some_iff.mp read
      cases impossible
    · split at read
      · cases read; exact ⟨rfl, rfl⟩
      · cases regex : skipRegex false text with
        | some after => rw [regex] at read; cases read
        | none => rw [regex] at read; cases read; exact ⟨rfl, rfl⟩

theorem eq_of_read?_mark {divides : Bool} {text behind : Bytes} {b : UInt8}
    (read : read? divides text = some (mark b behind)) : text = b :: behind := by
  cases text with
  | nil => simp [read?] at read
  | cons c text =>
    simp only [read?] at read
    split at read
    · cases read
    · split at read
      · obtain ⟨_, _, impossible⟩ := Option.map_eq_some_iff.mp read
        cases impossible
      · split at read
        · cases read
        · split at read
          · next slashed =>
            obtain ⟨rfl, rfl⟩ := eq_of_ofSlash_mark read
            rw [slashed]
          · split at read
            · cases read
            · split at read
              · cases read
              · cases read; rfl

private theorem ofSlash_local (stops : Stop stop) {divides : Bool}
    {text after behind : Bytes} {piece : Piece}
    (read : ofSlash divides (text ++ stop :: behind) = some piece)
    (inside : piece.rest = after ++ stop :: behind) {other : Bytes} (tame : Tame behind other) :
    ofSlash divides (text ++ stop :: other) = some (piece.withRest (after ++ stop :: other)) := by
  have head (tail : Bytes) : (text ++ stop :: tail).head? = some (text.headD stop) := by
    cases text <;> rfl
  simp only [ofSlash, head] at read ⊢
  split at read
  · next lineComment =>
    cases read
    rw [if_pos lineComment]
    simp only [Piece.rest, lineEnd_append_cons stops] at inside
    split at inside
    · next broken =>
      rw [lineEnd_append_cons stops, if_pos broken, List.append_cancel_right inside]
      rfl
    · have := (lineEnd_suffix behind).length_le
      rw [inside, List.length_append, List.length_cons] at this
      omega
  · next noLineComment =>
    rw [if_neg noLineComment]
    split at read
    · next blockComment =>
      rw [if_pos blockComment]
      obtain ⟨last, ended, rfl⟩ := Option.map_eq_some_iff.mp read
      cases text with
      | nil =>
        exact absurd (Option.some.inj blockComment) (stops.ne (by decide))
      | cons b text =>
        obtain ⟨taken, same, again⟩ := blockEnd?_local ended
        simp only [Piece.rest] at inside
        rw [inside, List.cons_append, List.tail_cons, ← List.append_assoc] at same
        rw [List.append_cancel_right same, List.cons_append, List.tail_cons, List.append_assoc, again]
        rfl
    · next noBlockComment =>
      rw [if_neg noBlockComment]
      split at read
      · next operand =>
        cases read
        rw [if_pos operand, List.append_cancel_right inside]
        rfl
      · next noOperand =>
        rw [if_neg noOperand]
        cases regex : skipRegex false (text ++ stop :: behind) with
        | some last =>
          rw [regex] at read
          cases read
          simp only [Option.map_some, Option.getD_some, Piece.rest] at inside
          rw [inside] at regex
          rw [skipRegex_append_cons stops (skipRegex_of_append_cons stops regex)]
          rfl
        | none =>
          rw [regex] at read
          cases read
          rw [tame.append stops text false regex, List.append_cancel_right inside]
          rfl

/-- A piece that ends before a stop is read alike before every tame text behind the stop. -/
theorem read?_local (stops : Stop stop) {divides : Bool} {text after behind : Bytes}
    {piece : Piece} (read : read? divides (text ++ stop :: behind) = some piece)
    (inside : piece.rest = after ++ stop :: behind) {other : Bytes} (tame : Tame behind other) :
    read? divides (text ++ stop :: other) = some (piece.withRest (after ++ stop :: other)) := by
  cases text with
  | nil =>
    have := Piece.length_rest read
    rw [inside, List.nil_append, List.length_append, List.length_cons] at this
    omega
  | cons b text =>
    have blank (tail : Bytes) := blank?_append_cons stops (b :: text) tail
    have word (tail : Bytes) := Word.split_append_cons stops (b :: text) tail
    have head (tail : Bytes) : (text ++ stop :: tail).head? = some (text.headD stop) := by
      cases text <;> rfl
    simp only [List.cons_append] at read blank word ⊢
    simp only [read?, blank, word, head] at read ⊢
    cases first : blank? (b :: text) with
    | some last =>
      simp only [first, Option.map_some, Option.some.injEq] at read ⊢
      cases read
      rw [List.append_cancel_right inside]
      rfl
    | none =>
      simp only [first, Option.map_none] at read ⊢
      split at read
      · next quoted =>
        obtain ⟨last, skipped, rfl⟩ := Option.map_eq_some_iff.mp read
        obtain ⟨taken, same, again⟩ := skipQuoted_local skipped
        simp only [Piece.rest] at inside
        rw [inside, ← List.append_assoc] at same
        rw [if_pos quoted, List.append_cancel_right same, List.append_assoc, again]
        rfl
      · next unquoted =>
        rw [if_neg unquoted]
        split at read
        · next opens =>
          cases read
          rw [if_pos opens, List.append_cancel_right inside]
          rfl
        · next noTemplate =>
          rw [if_neg noTemplate]
          split at read
          · next slashed =>
            rw [if_pos slashed]
            exact ofSlash_local stops read inside tame
          · next noSlash =>
            rw [if_neg noSlash]
            split at read
            · next part =>
              cases read
              rw [if_pos part, List.append_cancel_right inside]
              rfl
            · next noWord =>
              rw [if_neg noWord]
              split at read
              · next twice =>
                cases read
                rw [if_pos twice]
                cases text with
                | nil =>
                  obtain ⟨_, sign, same⟩ := twice
                  simp only [List.headD_nil, Option.some.injEq] at same
                  subst same
                  rcases sign with rfl | rfl
                  · exact absurd rfl (stops.ne (b := plus) (by decide))
                  · exact absurd rfl (stops.ne (b := minus) (by decide))
                | cons c text =>
                  simp only [List.cons_append, List.tail_cons, Piece.rest] at inside ⊢
                  rw [List.append_cancel_right inside]
                  rfl
              · next single =>
                cases read
                rw [if_neg single, List.append_cancel_right inside]
                rfl

end Piece

/-- Code whose opening brace is closed by its last one. -/
theorem closeFrame_of_matchingBrace? {body : Bytes}
    (matched : matchingBrace? (leftBrace :: body ++ [rightBrace]) 0 = some (body.length + 1)) :
    closeFrame .start [] (body ++ [rightBrace]) = some [] := by
  simp only [matchingBrace?, List.cons_append, List.drop_zero, if_true, Option.map_eq_some_iff,
    List.length_cons, List.length_append, List.length_nil] at matched
  obtain ⟨after, closed, place⟩ := matched
  have bound := (closeFrame_suffix closed).length_le
  simp only [List.length_append, List.length_cons, List.length_nil] at bound
  have empty : after = [] := List.length_eq_zero_iff.mp (by omega)
  rwa [empty] at closed

end Unbundle.Script
