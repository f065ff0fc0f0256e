import Unbundle.Script.History
import Unbundle.Script.Literal

namespace Unbundle.Script

open Ascii

/-- The text after the flags of a regular expression whose opening slash is behind; `inClass`
says that a bracket class is open, in which a slash does not close. -/
def skipRegex (inClass : Bool) : Bytes → Option Bytes
  | [] => none
  | b :: rest =>
    if b = backslash then
      match rest with
      | [] => none
      | _ :: after => skipRegex inClass after
    else if b = newline ∨ b = carriageReturn then none
    else if inClass then skipRegex (b ≠ rightBracket) rest
    else if b = slash then some (Word.split rest).2
    else skipRegex (b = leftBracket) rest

theorem skipRegex_suffix {inClass : Bool} {text rest : Bytes}
    (found : skipRegex inClass text = some rest) : rest <:+ text := by
  fun_induction skipRegex inClass text with
  | case1 | case2 | case4 => simp at found
  | case3 _ _ after ih =>
    exact (ih found).trans ((List.suffix_cons _ _).trans (List.suffix_cons _ _))
  | case5 b tail _ _ ih => exact (ih found).trans (List.suffix_cons _ _)
  | case6 => cases found; exact (Word.split_suffix _).trans (List.suffix_cons _ _)
  | case7 _ b tail _ _ _ _ ih => exact (ih found).trans (List.suffix_cons _ _)

/-- Each piece with the text after it. A `literal` is a quoted text or a regular expression, a
`template` just its opening backtick, an `increment` the two bytes of a postfix operator. -/
inductive Piece where
  | gap (rest : Bytes)
  | literal (rest : Bytes)
  | template (rest : Bytes)
  | word (text rest : Bytes)
  | increment (rest : Bytes)
  | mark (byte : UInt8) (rest : Bytes)
  deriving DecidableEq, Repr

namespace Piece

def rest : Piece → Bytes
  | gap rest | literal rest | template rest | word _ rest | increment rest | mark _ rest => rest

/-- What a slash begins: a comment, a regular expression where no operand stands before it, or
itself. Nothing, if it begins a block comment that does not end. -/
def ofSlash (divides : Bool) (rest : Bytes) : Option Piece :=
  if rest.head? = some slash then some (gap (lineEnd rest))
  else if rest.head? = some star then (blockEnd? rest.tail).map gap
  else if divides then some (mark slash rest)
  else some (((skipRegex false rest).map literal).getD (mark slash rest))

/-- The piece at the front; nothing at the end of the text and where a literal or a comment does
not end. -/
def read? (divides : Bool) : Bytes → Option Piece
  | [] => none
  | b :: rest =>
    match blank? (b :: rest) with
    | some after => some (gap after)
    | none =>
      if isQuote b then (skipQuoted b rest).map literal
      else if b = backtick then some (template rest)
      else if b = slash then ofSlash divides rest
      else if Word.isPart b then
        some (word (Word.split (b :: rest)).1 (Word.split (b :: rest)).2)
      else if divides ∧ (b = plus ∨ b = minus) ∧ rest.head? = some b then
        some (increment rest.tail)
      else some (mark b rest)

private theorem suffix_cons_of_suffix {rest text : Bytes} (b : UInt8) (suffix : rest <:+ text) :
    ∃ taken, taken ≠ [] ∧ b :: text = taken ++ rest := by
  obtain ⟨taken, rfl⟩ := suffix
  exact ⟨b :: taken, by simp, rfl⟩

private theorem ofSlash_suffix {divides : Bool} {text : Bytes} {piece : Piece}
    (read : ofSlash divides text = some piece) : piece.rest <:+ text := by
  simp only [ofSlash] at read
  split at read
  · cases read; exact lineEnd_suffix text
  · split at read
    · obtain ⟨after, ended, rfl⟩ := Option.map_eq_some_iff.mp read
      exact (blockEnd?_suffix ended).trans (List.tail_suffix _)
    · split at read
      · cases read; exact List.suffix_refl _
      · cases read
        cases regex : skipRegex false text with
        | none => exact List.suffix_refl _
        | some after => exact skipRegex_suffix regex

/-- A piece takes some bytes off the front. -/
theorem read?_append {divides : Bool} {text : Bytes} {piece : Piece}
    (read : read? divides text = some piece) :
    ∃ taken, taken ≠ [] ∧ text = taken ++ piece.rest := by
  cases text with
  | nil => simp [read?] at read
  | cons b text =>
    simp only [read?] at read
    split at read
    · next after found =>
      cases read
      obtain ⟨spelling, member, same⟩ := blank?_eq_some found
      exact ⟨spelling, List.ne_nil_of_length_pos (length_of_mem_blanks member), same⟩
    · next unblank =>
      split at read
      · obtain ⟨after, closed, rfl⟩ := Option.map_eq_some_iff.mp read
        exact suffix_cons_of_suffix b (skipQuoted_suffix closed)
      · split at read
        · cases read; exact ⟨[b], by simp, rfl⟩
        · split at read
          · exact suffix_cons_of_suffix b (ofSlash_suffix read)
          · split at read
            · next part =>
              cases read
              refine ⟨(Word.split (b :: text)).1, ?_, (Word.split_append _).symm⟩
              simp [Word.split, part, isBlank, unblank]
            · split at read
              · cases read; exact suffix_cons_of_suffix b (List.tail_suffix _)
              · cases read; exact ⟨[b], by simp, rfl⟩

theorem rest_suffix {divides : Bool} {text : Bytes} {piece : Piece}
    (read : read? divides text = some piece) : piece.rest <:+ text := by
  obtain ⟨taken, _, rfl⟩ := read?_append read
  exact List.suffix_append _ _

theorem length_rest {divides : Bool} {text : Bytes} {piece : Piece}
    (read : read? divides text = some piece) : piece.rest.length < text.length := by
  obtain ⟨taken, nonempty, rfl⟩ := read?_append read
  have := List.length_pos_iff.mpr nonempty
  rw [List.length_append]; omega

end Piece

/-- What is remembered past a piece. -/
def History.after (history : History) : Piece → History
  | .gap _ => history
  | .literal _ | .template _ | .increment _ => history.operand
  | .word text _ => history.word text
  | .mark b _ => history.mark b

end Unbundle.Script
