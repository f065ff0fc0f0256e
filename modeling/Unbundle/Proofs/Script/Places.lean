import Mathlib.Data.List.Infix
import Unbundle.Script.Piece

/-!
Scanning a script by place. Every byte is read at its place and every part is taken from a place on,
and both fail outside the text. Main statement: skipping words, literals, blanks and comments neither
fails nor goes on for ever, and comes to where the rest begins that skipping at the front leaves.
-/

namespace Unbundle.Script

open Ascii

/-- Where a rest of a text begins. -/
def placeOf (text rest : Bytes) : Nat := text.length - rest.length

section

variable {text rest : Bytes} {b : UInt8}

theorem placeOf_nil (text : Bytes) : placeOf text [] = text.length := rfl

theorem not_placeOf_nil_lt (text : Bytes) : ¬ placeOf text [] < text.length := Nat.lt_irrefl _

theorem placeOf_self (text : Bytes) : placeOf text text = 0 := Nat.sub_self _

theorem placeOf_le (text rest : Bytes) : placeOf text rest ≤ text.length := Nat.sub_le ..

theorem suffix_of_cons (inside : b :: rest <:+ text) : rest <:+ text :=
  (List.suffix_cons b rest).trans inside

theorem placeOf_append {word : Bytes} (inside : word ++ rest <:+ text) :
    placeOf text (word ++ rest) + word.length = placeOf text rest := by
  have := inside.length_le
  simp only [placeOf, List.length_append] at *
  omega

theorem placeOf_cons (inside : b :: rest <:+ text) :
    placeOf text (b :: rest) + 1 = placeOf text rest :=
  placeOf_append (show [b] ++ rest <:+ text from inside)

theorem placeOf_cons_cons {c : UInt8} (inside : b :: c :: rest <:+ text) :
    placeOf text (b :: c :: rest) + 2 = placeOf text rest :=
  placeOf_append (show [b, c] ++ rest <:+ text from inside)

theorem placeOf_lt (inside : b :: rest <:+ text) : placeOf text (b :: rest) < text.length := by
  have := placeOf_cons inside
  have := placeOf_le text rest
  omega

/-- A text is cut in two by the byte at any of its places. -/
theorem exists_cut_of_getElem? {place : Nat} (found : text[place]? = some b) :
    ∃ before rest, text = before ++ b :: rest ∧ before.length = place := by
  obtain ⟨inside, same⟩ := List.getElem?_eq_some_iff.mp found
  refine ⟨text.take place, text.drop (place + 1), ?_, List.length_take_of_le (Nat.le_of_lt inside)⟩
  rw [← same, ← List.drop_eq_getElem_cons, List.take_append_drop]

private theorem drop_placeOf (inside : rest <:+ text) : text.drop (placeOf text rest) = rest := by
  obtain ⟨taken, rfl⟩ := inside
  simp [placeOf]

end

/-- A computation over a text: nothing once it reads outside, takes a part from behind the end, or
does not come to an end itself. -/
abbrev Guarded := Option

/-- A search that has come to an end, with or without success. -/
def Guarded.searched {α : Type} (found : Option α) : OptionT Guarded α := OptionT.mk (pure found)

namespace Guarded

variable {α : Type}

@[simp]
theorem searched_none : (searched none : OptionT Guarded α) = failure := by
  rw [searched]
  rfl

@[simp]
theorem searched_some (found : α) : searched (some found) = pure found := by
  rw [searched]
  rfl

@[simp]
theorem lift_some (a : α) : (liftM (some a : Guarded α) : OptionT Guarded α) = pure a := rfl

/-- A search that need not succeed for the one it belongs to. -/
def attempt (search : OptionT Guarded α) : OptionT Guarded (Option α) := OptionT.lift search.run

@[simp]
theorem attempt_failure : attempt (failure : OptionT Guarded α) = pure none := by
  rw [attempt]
  rfl

@[simp]
theorem attempt_pure (found : α) : attempt (pure found) = pure (some found) := by
  rw [attempt]
  rfl

def byte (text : Bytes) (place : Nat) : Guarded UInt8 := text[place]?

def part (text : Bytes) (start finish : Nat) : Guarded Bytes :=
  if start ≤ text.length then some ((text.take finish).drop start) else none

/-- Whether a byte stands at a place, which may be the end. -/
def sees (text : Bytes) (b : UInt8) (place : Nat) : Guarded Bool := do
  if place < text.length then return (← byte text place) = b else return false

section

variable {text rest : Bytes} {b : UInt8}

theorem byte_eq (inside : b :: rest <:+ text) : byte text (placeOf text (b :: rest)) = some b := by
  obtain ⟨taken, rfl⟩ := inside
  simp [byte, placeOf]

theorem sees_eq (inside : rest <:+ text) (b : UInt8) :
    sees text b (placeOf text rest) = some (decide (rest.head? = some b)) := by
  cases rest with
  | nil => simp [sees, placeOf_nil]
  | cons c rest => simp [sees, placeOf_lt inside, byte_eq inside]

theorem part_until (inside : rest <:+ text) (finish : Nat) :
    part text (placeOf text rest) finish = some (rest.take (finish - placeOf text rest)) := by
  rw [part, if_pos (placeOf_le ..), List.drop_take, drop_placeOf inside]

theorem part_take (inside : rest <:+ text) (length : Nat) :
    part text (placeOf text rest) (placeOf text rest + length) = some (rest.take length) := by
  rw [part_until inside, Nat.add_sub_cancel_left]

theorem part_eq {word after : Bytes} (inside : rest <:+ text) (whole : word ++ after = rest) :
    part text (placeOf text rest) (placeOf text after) = some word := by
  subst whole
  rw [← placeOf_append inside, part_take inside, List.take_left]

end

end Guarded

/-! ### Blanks -/

/-- How long the blank at the front is, if one stands there. -/
def blankWidth (text : Bytes) : Nat := text.length - ((blank? text).getD text).length

/-- How long the blanks are that begin with a byte. -/
def leadWidth (b : UInt8) : Nat :=
  if [b] ∈ blanks then 1
  else if b = 0xC2 then 2
  else if b ∈ [0xE1, 0xE2, 0xE3, 0xEF] then 3
  else 0

theorem blank?_append {spelling : Bytes} (member : spelling ∈ blanks) (rest : Bytes) :
    blank? (spelling ++ rest) = some rest := by
  have apart : ∀ one ∈ blanks, ∀ other ∈ blanks, one <+: other → one = other := by decide
  have matched : spelling.isPrefixOf? (spelling ++ rest) = some rest :=
    List.isPrefixOf?_eq_some_iff_append_eq.mpr rfl
  cases found : blank? (spelling ++ rest) with
  | none =>
    have unmatched := List.findSome?_eq_none_iff.mp found spelling member
    cases matched.symm.trans unmatched
  | some after =>
    obtain ⟨other, known, same⟩ := blank?_eq_some found
    obtain rfl : spelling = other := by
      rcases List.prefix_or_prefix_of_prefix (List.prefix_append spelling rest)
        (same ▸ List.prefix_append other after) with shorter | longer
      · exact apart _ member _ known shorter
      · exact (apart _ known _ member longer).symm
    rw [List.append_cancel_left same]

/-- The first byte of a blank tells how long it is. -/
theorem length_blank {b : UInt8} {spelling : Bytes} (member : b :: spelling ∈ blanks) :
    (b :: spelling).length = leadWidth b := by
  have lead : ∀ spelling ∈ blanks, spelling.head?.map leadWidth = some spelling.length := by decide
  simpa using (lead _ member).symm

private theorem blankWidth_cons (b : UInt8) (rest : Bytes) :
    blankWidth (b :: rest) =
      if (b :: rest).take (leadWidth b) ∈ blanks then leadWidth b else 0 := by
  by_cases member : (b :: rest).take (leadWidth b) ∈ blanks
  · have found := blank?_append member ((b :: rest).drop (leadWidth b))
    rw [List.take_append_drop] at found
    rw [if_pos member, blankWidth, found, Option.getD_some, List.length_drop]
    cases width : leadWidth b with
    | zero =>
      rw [width] at member
      exact absurd member (show [] ∉ blanks by decide)
    | succ more =>
      rw [width, List.take_succ_cons] at member
      have length := length_blank member
      rw [width, List.length_cons, List.length_take] at length
      rw [List.length_cons]
      omega
  · rw [if_neg member, blankWidth]
    cases found : blank? (b :: rest) with
    | none => simp
    | some after =>
      obtain ⟨spelling, known, same⟩ := blank?_eq_some found
      cases spelling with
      | nil => exact absurd known (by decide)
      | cons c spelling =>
        obtain rfl : b = c := (List.cons.inj same).1
        rw [same, ← length_blank known, List.take_left] at member
        exact absurd known member

namespace Guarded

/-- How long the blank at a place is, if one stands there. -/
def blankLength (text : Bytes) (place : Nat) : Guarded Nat := do
  let b ← byte text place
  if [b] ∈ blanks then return 1
  else if b = 0xC2 then
    if place + 1 < text.length then
      let c ← byte text (place + 1)
      return if [b, c] ∈ blanks then 2 else 0
    else return 0
  else if b ∈ [0xE1, 0xE2, 0xE3, 0xEF] then
    if place + 2 < text.length then
      let c ← byte text (place + 1)
      let d ← byte text (place + 2)
      return if [b, c, d] ∈ blanks then 3 else 0
    else return 0
  else return 0

variable {text rest : Bytes} {b : UInt8}

theorem blankLength_eq (inside : b :: rest <:+ text) :
    blankLength text (placeOf text (b :: rest)) = some (blankWidth (b :: rest)) := by
  have behind := suffix_of_cons inside
  have next := placeOf_cons inside
  have second : placeOf text (b :: rest) + 2 = placeOf text rest + 1 := congrArg (· + 1) next
  have unblank : [] ∉ blanks := by decide
  rw [blankLength, byte_eq inside, blankWidth_cons, leadWidth]
  simp only [Option.bind_eq_bind, Option.bind_some, next, second]
  by_cases one : [b] ∈ blanks
  · simp [one]
  simp only [one, if_false]
  by_cases two : b = 0xC2
  · cases rest with
    | nil => simp [two, placeOf_nil, two ▸ one]
    | cons c rest => simp [two, placeOf_lt behind, byte_eq behind]
  simp only [two, if_false]
  by_cases three : b ∈ [0xE1, 0xE2, 0xE3, 0xEF]
  · have width : leadWidth b = 3 := by simp [leadWidth, one, two, three]
    simp only [three, if_true]
    cases rest with
    | nil =>
      have beyond : ¬ text.length + 1 < text.length := by omega
      simp [placeOf_nil, one, beyond]
    | cons c rest =>
      have last := suffix_of_cons behind
      rw [placeOf_cons behind, byte_eq behind]
      cases rest with
      | nil =>
        have short : [b, c] ∉ blanks := by
          intro member
          have length := length_blank member
          rw [width] at length
          cases length
        simp [placeOf_nil, short]
      | cons d rest =>
        by_cases known : [b, c, d] ∈ blanks <;> simp [placeOf_lt last, byte_eq last, known]
  · simp [three, unblank]

theorem blankWidth_eq_zero : blankWidth text = 0 ↔ isBlank text = false := by
  rw [blankWidth, isBlank]
  cases found : blank? text with
  | none => simp
  | some after =>
    have := length_blank? found
    simp
    omega

/-! ### Loops over bytes

A loop starts again through `exact`, which leaves no trace of its place in the source in the term. -/

def wordEnd (text : Bytes) (place : Nat) : Guarded Nat :=
  letI again : Bytes → Nat → Guarded Nat := by exact wordEnd
  do
  if place < text.length then
    let b ← byte text place
    if Word.isPart b then
      let width ← blankLength text place
      if width = 0 then again text (place + 1) else return place
    else return place
  else return place
partial_fixpoint

theorem wordEnd_eq (inside : rest <:+ text) :
    wordEnd text (placeOf text rest) = some (placeOf text (Word.split rest).2) := by
  induction rest with
  | nil => simp [wordEnd, Word.split, placeOf_nil]
  | cons b rest ih =>
    rw [wordEnd, if_pos (placeOf_lt inside), byte_eq inside, blankLength_eq inside,
      placeOf_cons inside, ih (suffix_of_cons inside), Word.split]
    by_cases blank : isBlank (b :: rest) = true
    · have wide : blankWidth (b :: rest) ≠ 0 := fun none => by
        simp [blankWidth_eq_zero.mp none] at blank
      simp [blank, wide]
    · have narrow := blankWidth_eq_zero.mpr (Bool.eq_false_iff.mpr blank)
      by_cases part : Word.isPart b = true <;> simp [blank, narrow, part]

def skipQuoted (text : Bytes) (quote : UInt8) (place : Nat) : OptionT Guarded Nat :=
  letI again : Bytes → UInt8 → Nat → OptionT Guarded Nat := by exact skipQuoted
  do
  if place < text.length then
    let b ← byte text place
    if b = backslash then again text quote (place + 2)
    else if b = quote then return place + 1
    else again text quote (place + 1)
  else failure
partial_fixpoint

private theorem skipQuoted_behind {quote : UInt8} {place : Nat} (behind : text.length ≤ place) :
    skipQuoted text quote place = failure := by
  rw [skipQuoted, if_neg (Nat.not_lt.mpr behind)]

private theorem skipQuoted_step {quote : UInt8} (inside : b :: rest <:+ text) :
    skipQuoted text quote (placeOf text (b :: rest)) =
      if b = backslash then skipQuoted text quote (placeOf text rest + 1)
      else if b = quote then pure (placeOf text rest)
      else skipQuoted text quote (placeOf text rest) := by
  rw [skipQuoted, if_pos (placeOf_lt inside), byte_eq inside, lift_some, pure_bind, ← placeOf_cons inside]

theorem skipQuoted_eq {quote : UInt8} (inside : rest <:+ text) :
    skipQuoted text quote (placeOf text rest) =
      searched ((Script.skipQuoted quote rest).map (placeOf text)) := by
  fun_induction Script.skipQuoted quote rest with
  | case1 => exact skipQuoted_behind (Nat.le_refl _)
  | case2 => simp [skipQuoted_step inside, skipQuoted_behind, placeOf_nil]
  | case3 c rest ih =>
    have behind := suffix_of_cons inside
    simp [skipQuoted_step inside, placeOf_cons behind, ih (suffix_of_cons behind)]
  | case4 => simp [skipQuoted_step inside, *]
  | case5 b rest plain other ih =>
    simp [skipQuoted_step inside, plain, other, ih (suffix_of_cons inside)]

def skipRegex (text : Bytes) (inClass : Bool) (place : Nat) : OptionT Guarded Nat :=
  letI again : Bytes → Bool → Nat → OptionT Guarded Nat := by exact skipRegex
  do
  if place < text.length then
    let b ← byte text place
    if b = backslash then again text inClass (place + 2)
    else if b = newline ∨ b = carriageReturn then failure
    else if inClass then again text (b ≠ rightBracket) (place + 1)
    else if b = slash then wordEnd text (place + 1)
    else again text (b = leftBracket) (place + 1)
  else failure
partial_fixpoint

private theorem skipRegex_behind {inClass : Bool} {place : Nat} (behind : text.length ≤ place) :
    skipRegex text inClass place = failure := by
  rw [skipRegex, if_neg (Nat.not_lt.mpr behind)]

private theorem skipRegex_step {inClass : Bool} (inside : b :: rest <:+ text) :
    skipRegex text inClass (placeOf text (b :: rest)) =
      if b = backslash then skipRegex text inClass (placeOf text rest + 1)
      else if b = newline ∨ b = carriageReturn then failure
      else if inClass then skipRegex text (b ≠ rightBracket) (placeOf text rest)
      else if b = slash then pure (placeOf text (Word.split rest).2)
      else skipRegex text (b = leftBracket) (placeOf text rest) := by
  rw [skipRegex, if_pos (placeOf_lt inside), byte_eq inside, lift_some, pure_bind, placeOf_cons inside,
    wordEnd_eq (suffix_of_cons inside), ← placeOf_cons inside]
  rfl

theorem skipRegex_eq {inClass : Bool} (inside : rest <:+ text) :
    skipRegex text inClass (placeOf text rest) =
      searched ((Script.skipRegex inClass rest).map (placeOf text)) := by
  fun_induction Script.skipRegex inClass rest with
  | case1 => exact skipRegex_behind (Nat.le_refl _)
  | case2 => simp [skipRegex_step inside, skipRegex_behind, placeOf_nil]
  | case3 inClass c rest ih =>
    have behind := suffix_of_cons inside
    simp [skipRegex_step inside, placeOf_cons behind, ih (suffix_of_cons behind)]
  | case4 => simp [skipRegex_step inside, *]
  | case5 b rest plain line ih =>
    simpa [skipRegex_step inside, plain, line] using ih (suffix_of_cons inside)
  | case6 => simp [skipRegex_step inside, *]
  | case7 inClass b rest plain line outside other ih =>
    simpa [skipRegex_step inside, plain, line, outside, other] using ih (suffix_of_cons inside)

def lineEnd (text : Bytes) (place : Nat) : Guarded Nat :=
  letI again : Bytes → Nat → Guarded Nat := by exact lineEnd
  do
  if place < text.length then
    let b ← byte text place
    if b = newline then return place else again text (place + 1)
  else return text.length
partial_fixpoint

theorem lineEnd_eq (inside : rest <:+ text) :
    lineEnd text (placeOf text rest) = some (placeOf text (Script.lineEnd rest)) := by
  induction rest with
  | nil => simp [lineEnd, Script.lineEnd, placeOf_nil]
  | cons b rest ih =>
    have onward := ih (suffix_of_cons inside)
    rw [lineEnd, if_pos (placeOf_lt inside), byte_eq inside, placeOf_cons inside, onward]
    by_cases ends : b = newline <;> simp [Script.lineEnd, ends]

/-- The place after the next end of a block comment. -/
def blockEnd (text : Bytes) (place : Nat) : OptionT Guarded Nat :=
  letI again : Bytes → Nat → OptionT Guarded Nat := by exact blockEnd
  do
  if place + 1 < text.length then
    let b ← byte text place
    let c ← byte text (place + 1)
    if b = star ∧ c = slash then return place + 2 else again text (place + 1)
  else failure
partial_fixpoint

theorem blockEnd_eq (inside : rest <:+ text) :
    blockEnd text (placeOf text rest) =
      searched ((blockEnd? rest).map (placeOf text)) := by
  induction rest with
  | nil =>
    have short : ¬ placeOf text [] + 1 < text.length := by
      rw [placeOf_nil]
      omega
    rw [blockEnd, if_neg short]
    rfl
  | cons b rest ih =>
    have behind := suffix_of_cons inside
    rw [blockEnd, placeOf_cons inside]
    cases rest with
    | nil => simp [blockEnd?, placeOf_nil]
    | cons c rest =>
      have next : blockEnd? (b :: c :: rest) =
          if b = star ∧ c = slash then some rest else blockEnd? (c :: rest) := by
        rw [blockEnd?]
        simp
      rw [if_pos (placeOf_lt behind), byte_eq inside, byte_eq behind, lift_some, pure_bind,
        lift_some, pure_bind, placeOf_cons_cons inside, ih behind, next]
      by_cases ends : b = star ∧ c = slash <;> simp [ends]

theorem placeOf_blank {after : Bytes} (inside : rest <:+ text) (found : blank? rest = some after) :
    placeOf text rest + blankWidth rest = placeOf text after := by
  obtain ⟨spelling, _, rfl⟩ := blank?_eq_some found
  rw [blankWidth, found, ← placeOf_append inside]
  simp

def skipGaps (text : Bytes) (place : Nat) : Guarded Nat :=
  letI again : Bytes → Nat → Guarded Nat := by exact skipGaps
  do
  if place < text.length then
    let width ← blankLength text place
    if width ≠ 0 then again text (place + width)
    else
      let two ← part text place (place + 2)
      if two = [slash, slash] then again text (← lineEnd text place)
      else if two = [slash, star] then
        match ← (blockEnd text (place + 2)).run with
        | some past => again text past
        | none => return text.length
      else return place
  else return place
partial_fixpoint

private theorem skipGaps_solid (inside : b :: rest <:+ text) (solid : blank? (b :: rest) = none) :
    skipGaps text (placeOf text (b :: rest)) =
      if (b :: rest).take 2 = [slash, slash] then
        skipGaps text (placeOf text (Script.lineEnd (b :: rest)))
      else if (b :: rest).take 2 = [slash, star] then
        match blockEnd? rest.tail with
        | some after => skipGaps text (placeOf text after)
        | none => some text.length
      else some (placeOf text (b :: rest)) := by
  have narrow : blankWidth (b :: rest) = 0 := by simp [blankWidth, solid]
  rw [skipGaps, if_pos (placeOf_lt inside), blankLength_eq inside, narrow, part_take inside,
    lineEnd_eq inside]
  cases rest with
  | nil => simp
  | cons c rest =>
    have behind := suffix_of_cons (suffix_of_cons inside)
    rw [placeOf_cons_cons inside, blockEnd_eq behind]
    cases ended : blockEnd? rest <;> simp [ended]

theorem skipGaps_eq (inside : rest <:+ text) :
    skipGaps text (placeOf text rest) = some (placeOf text (Script.skipGaps rest)) := by
  fun_induction Script.skipGaps rest with
  | case1 rest after blank ih =>
    cases rest with
    | nil =>
      have unblank : blank? [] = none := by decide
      cases unblank.symm.trans blank
    | cons b rest =>
      have wide : blankWidth (b :: rest) ≠ 0 := by simp [blankWidth_eq_zero, isBlank, blank]
      have behind : after <:+ text := by
        obtain ⟨spelling, _, same⟩ := blank?_eq_some blank
        exact (same ▸ List.suffix_append spelling after).trans inside
      rw [skipGaps, if_pos (placeOf_lt inside), blankLength_eq inside]
      simpa [wide, placeOf_blank inside blank] using ih behind
  | case2 first second rest solid other => simp [skipGaps_solid inside solid, other]
  | case3 first rest same solid ih =>
    obtain rfl : first = slash := not_not.mp same
    have line : Script.lineEnd (slash :: slash :: rest) = Script.lineEnd rest := by
      simp +decide [Script.lineEnd]
    have behind := suffix_of_cons (suffix_of_cons inside)
    simpa [skipGaps_solid inside solid, line] using ih ((lineEnd_suffix rest).trans behind)
  | case4 first rest same after ended solid differs ih =>
    obtain rfl : first = slash := not_not.mp same
    have behind := suffix_of_cons (suffix_of_cons inside)
    simpa [skipGaps_solid inside solid, ended, differs] using
      ih ((blockEnd?_suffix ended).trans behind)
  | case5 first rest same unended solid differs =>
    obtain rfl : first = slash := not_not.mp same
    simp [skipGaps_solid inside solid, unended, differs, placeOf_nil]
  | case6 first second rest solid _ noLine noBlock =>
    simp [skipGaps_solid inside solid, noLine, noBlock]
  | case7 short solid noPair =>
    cases short with
    | nil => rw [skipGaps, if_neg (not_placeOf_nil_lt text)]; rfl
    | cons first more =>
      cases more with
      | nil => simp [skipGaps_solid inside solid]
      | cons second rest => exact (noPair first second rest solid rfl HEq.rfl).elim

end Guarded

end Unbundle.Script
