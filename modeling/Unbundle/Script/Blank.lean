import Unbundle.Bytes.Ascii

/-!
Blanks and comments of a script. A blank is one whitespace character in its UTF-8 bytes; the
bytes of a character that is cut off are no blank. Main statement: skipping leaves a suffix.
-/

namespace Unbundle.Script

open Ascii

/-- The spelling of each whitespace character: the ASCII ones, the no-break space, the space
separators, the line and paragraph separators, and the byte order mark. -/
def blanks : List Bytes :=
  [[space], [tab], [newline], [carriageReturn], [formFeed], [verticalTab], [0xC2, 0xA0],
   [0xE1, 0x9A, 0x80], [0xE2, 0x80, 0x80], [0xE2, 0x80, 0x81], [0xE2, 0x80, 0x82],
   [0xE2, 0x80, 0x83], [0xE2, 0x80, 0x84], [0xE2, 0x80, 0x85], [0xE2, 0x80, 0x86],
   [0xE2, 0x80, 0x87], [0xE2, 0x80, 0x88], [0xE2, 0x80, 0x89], [0xE2, 0x80, 0x8A],
   [0xE2, 0x80, 0xA8], [0xE2, 0x80, 0xA9], [0xE2, 0x80, 0xAF], [0xE2, 0x81, 0x9F],
   [0xE3, 0x80, 0x80], [0xEF, 0xBB, 0xBF]]

/-- The text after the blank at the front, if one stands there. -/
def blank? (text : Bytes) : Option Bytes := blanks.findSome? (·.isPrefixOf? text)

def isBlank (text : Bytes) : Bool := (blank? text).isSome

private theorem eq_append_of_isPrefixOf? {spelling text rest : Bytes}
    (read : spelling.isPrefixOf? text = some rest) : text = spelling ++ rest := by
  induction spelling generalizing text with
  | nil => exact Option.some.inj read
  | cons b spelling ih =>
    cases text with
    | nil => cases read
    | cons c text =>
      change (if b == c then spelling.isPrefixOf? text else none) = some rest at read
      simp only [Option.ite_none_right_eq_some, beq_iff_eq] at read
      rw [read.1, ih read.2, List.cons_append]

theorem blank?_eq_some {text rest : Bytes} (found : blank? text = some rest) :
    ∃ spelling ∈ blanks, text = spelling ++ rest := by
  obtain ⟨spelling, member, read⟩ := List.exists_of_findSome?_eq_some found
  exact ⟨spelling, member, eq_append_of_isPrefixOf? read⟩

theorem length_of_mem_blanks {spelling : Bytes} (member : spelling ∈ blanks) :
    0 < spelling.length := by
  have all : ∀ spelling ∈ blanks, 0 < spelling.length := by decide
  exact all spelling member

theorem length_blank? {text rest : Bytes} (found : blank? text = some rest) :
    rest.length < text.length := by
  obtain ⟨spelling, member, rfl⟩ := blank?_eq_some found
  have := length_of_mem_blanks member
  rw [List.length_append]; omega

/-- The text after the end of a block comment, if the comment ends. -/
def blockEnd? : Bytes → Option Bytes
  | [] => none
  | b :: rest =>
    if b = star ∧ rest.head? = some slash then some rest.tail else blockEnd? rest

def lineEnd (text : Bytes) : Bytes := text.dropWhile (· ≠ newline)

theorem blockEnd?_suffix {text rest : Bytes} (found : blockEnd? text = some rest) :
    rest <:+ text := by
  fun_induction blockEnd? text with
  | case1 => simp at found
  | case2 b tail closes =>
    cases found
    exact (List.tail_suffix _).trans (List.suffix_cons _ _)
  | case3 b tail _ ih => exact (ih found).trans (List.suffix_cons _ _)

theorem lineEnd_suffix (text : Bytes) : lineEnd text <:+ text := List.dropWhile_suffix _

/-- The text after all blanks and comments at the front; a block comment that does not end takes
the whole rest. -/
def skipGaps (text : Bytes) : Bytes :=
  match _blank : blank? text with
  | some rest => skipGaps rest
  | none =>
    match text with
    | first :: second :: rest =>
      if first ≠ slash then text
      else if second = slash then skipGaps (lineEnd rest)
      else if second = star then
        match _ended : blockEnd? rest with
        | some after => skipGaps after
        | none => []
      else text
    | _ => text
termination_by text.length
decreasing_by
  · exact length_blank? _blank
  · have := (lineEnd_suffix rest).length_le
    simp only [List.length_cons]; omega
  · have := (blockEnd?_suffix _ended).length_le
    simp only [List.length_cons]; omega

theorem skipGaps_suffix (text : Bytes) : skipGaps text <:+ text := by
  fun_induction skipGaps text with
  | case1 text rest blank ih =>
    obtain ⟨spelling, _, rfl⟩ := blank?_eq_some blank
    exact ih.trans (List.suffix_append _ _)
  | case3 second rest _ _ ih =>
    exact ih.trans ((lineEnd_suffix _).trans ((List.suffix_cons _ _).trans (List.suffix_cons _ _)))
  | case4 _ rest _ after ended _ _ ih =>
    exact ih.trans ((blockEnd?_suffix ended).trans
      ((List.suffix_cons _ _).trans (List.suffix_cons _ _)))
  | case5 => exact List.nil_suffix
  | case2 | case6 | case7 => exact List.suffix_refl _

end Unbundle.Script
