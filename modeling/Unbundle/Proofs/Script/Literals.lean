import Unbundle.Proofs.Script.Pieces
import Unbundle.Script.Factory

/-!
Reading literals and function literals by place. Main statement: neither fails or goes on for ever,
and both read what they read at the front of the text.
-/

namespace Unbundle.Script

open Ascii

namespace Guarded

variable {text rest : Bytes} {b : UInt8}

def hexDigits (text : Bytes) (digits value place : Nat) : OptionT Guarded Nat :=
  match digits with
  | 0 => return value
  | digits + 1 => do
    match hexValue? (← byte text place) with
    | none => failure
    | some digit => hexDigits text digits (value * 16 + digit.toNat) (place + 1)

/-- The number spelled by the given count of hexadecimal digits, and the place after them. -/
def hexNumber (text : Bytes) (digits place : Nat) : OptionT Guarded (Nat × Nat) := do
  if text.length < place + digits then failure
  else return (← hexDigits text digits 0 place, place + digits)

end Guarded

/-- A text that was read, and the place after it. -/
def located {α : Type} (text : Bytes) (found : α × Bytes) : α × Nat :=
  (found.1, placeOf text found.2)

namespace Guarded

variable {text rest : Bytes} {b : UInt8}

private theorem placeOf_hexNumber? {digits value unit : Nat} {after : Bytes}
    (inside : rest <:+ text)
    (found : Literal.hexNumber? digits value rest = some (unit, after)) :
    placeOf text rest + digits = placeOf text after := by
  fun_induction Literal.hexNumber? digits value rest with
  | case1 => cases found; rfl
  | case2 | case3 => cases found
  | case4 value digits b rest digit _ ih =>
    rw [← ih (suffix_of_cons inside) found, ← placeOf_cons inside]
    omega

private theorem hexDigits_eq {digits value : Nat} (inside : rest <:+ text)
    (enough : digits ≤ rest.length) :
    hexDigits text digits value (placeOf text rest) =
      searched ((Literal.hexNumber? digits value rest).map Prod.fst) := by
  fun_induction Literal.hexNumber? digits value rest with
  | case1 => rfl
  | case2 => simp at enough
  | case3 value digits b rest noDigit => simp [hexDigits, byte_eq inside, noDigit]
  | case4 value digits b rest digit read ih =>
    have onward := ih (suffix_of_cons inside) (Nat.le_of_succ_le_succ enough)
    simp [hexDigits, byte_eq inside, read, placeOf_cons inside, onward]

private theorem hexNumber_eq (inside : rest <:+ text) (digits : Nat) :
    hexNumber text digits (placeOf text rest) =
      searched ((Literal.hexNumber? digits 0 rest).map (located text)) := by
  have length := inside.length_le
  rw [hexNumber]
  cases found : Literal.hexNumber? digits 0 rest with
  | none =>
    by_cases short : text.length < placeOf text rest + digits
    · rw [if_pos short]
      rfl
    · have enough : digits ≤ rest.length := by
        rw [placeOf] at short
        omega
      rw [if_neg short, hexDigits_eq inside enough, found]
      rfl
  | some pair =>
    obtain ⟨unit, after⟩ := pair
    have past := placeOf_hexNumber? inside found
    have long : ¬ text.length < placeOf text rest + digits := by
      have := placeOf_le text after
      omega
    have enough : digits ≤ rest.length := by
      rw [placeOf] at long
      omega
    rw [if_neg long, hexDigits_eq inside enough, found, past]
    rfl

/-- The number that an escape with the given letter spells. -/
def escapeNumber (text : Bytes) (letter : UInt8) (place : Nat) : OptionT Guarded (Nat × Nat) :=
  if letter = 0x78 then hexNumber text 2 place
  else if letter = 0x75 then hexNumber text 4 place
  else failure

def escape (text : Bytes) (letter : UInt8) (place : Nat) : Guarded (Bytes × Nat) := do
  match ← (escapeNumber text letter place).run with
  | some (unit, past) => return (Literal.encodeUnit unit, past)
  | none =>
    if letter = newline then return ([], place)
    else return ([(Literal.controls.lookup letter).getD letter], place)

private theorem escape_eq (inside : rest <:+ text) (letter : UInt8) :
    escape text letter (placeOf text rest) = some (located text (Literal.escape letter rest)) := by
  have number : escapeNumber text letter (placeOf text rest) =
      searched ((if letter = 0x78 then Literal.hexNumber? 2 0 rest
        else if letter = 0x75 then Literal.hexNumber? 4 0 rest else none).map (located text)) := by
    rw [escapeNumber, hexNumber_eq inside, hexNumber_eq inside]
    split
    · rfl
    · split <;> rfl
  rw [escape, number, Literal.escape]
  cases (if letter = 0x78 then Literal.hexNumber? 2 0 rest
    else if letter = 0x75 then Literal.hexNumber? 4 0 rest else none) with
  | none => by_cases line : letter = newline <;> simp [line, located]
  | some pair => rfl

/-- The text that a literal spells whose opening quote is behind. -/
def readLiteral (text : Bytes) (quote : UInt8) (place : Nat) : OptionT Guarded (Bytes × Nat) :=
  letI again : Bytes → UInt8 → Nat → OptionT Guarded (Bytes × Nat) := by exact readLiteral
  do
  if place < text.length then
    let b ← byte text place
    if b = quote then return ([], place + 1)
    else if b = newline then failure
    else if b = backslash then
      if place + 1 < text.length then
        let letter ← byte text (place + 1)
        let (spelled, past) ← escape text letter (place + 2)
        let (more, finish) ← again text quote past
        return (spelled ++ more, finish)
      else failure
    else
      let (more, finish) ← again text quote (place + 1)
      return (b :: more, finish)
  else failure
partial_fixpoint

private theorem readLiteral_step {quote : UInt8} (inside : b :: rest <:+ text) :
    readLiteral text quote (placeOf text (b :: rest)) =
      if b = quote then pure ([], placeOf text rest)
      else if b = newline then failure
      else if b = backslash then
        if placeOf text rest < text.length then do
          let letter ← byte text (placeOf text rest)
          let (spelled, past) ← escape text letter (placeOf text rest + 1)
          let (more, finish) ← readLiteral text quote past
          return (spelled ++ more, finish)
        else failure
      else do
        let (more, finish) ← readLiteral text quote (placeOf text rest)
        return (b :: more, finish) := by
  rw [readLiteral, if_pos (placeOf_lt inside), byte_eq inside, lift_some, pure_bind,
    ← placeOf_cons inside]

theorem readLiteral_eq {quote : UInt8} (inside : rest <:+ text) :
    readLiteral text quote (placeOf text rest) =
      searched ((Literal.read? quote rest).map (located text)) := by
  fun_induction Literal.read? quote rest with
  | case1 =>
    rw [readLiteral, if_neg (not_placeOf_nil_lt text)]
    rfl
  | case2 rest =>
    rw [readLiteral_step inside]
    simp [located]
  | case3 rest noQuote =>
    rw [readLiteral_step inside]
    simp [noQuote]
  | case4 noQuote noLine =>
    rw [readLiteral_step inside]
    simp [noQuote, noLine, placeOf_nil]
  | case5 letter rest noQuote noLine ih =>
    have behind := suffix_of_cons inside
    have last := suffix_of_cons behind
    have onward := ih ((Literal.escape_suffix letter rest).trans last)
    rw [readLiteral_step inside]
    cases read : Literal.read? quote (Literal.escape letter rest).2 <;>
      simp [noQuote, noLine, placeOf_lt behind, byte_eq behind, placeOf_cons behind, escape_eq last,
        located, onward, read]
  | case6 b rest noQuote noLine plain ih =>
    have onward := ih (suffix_of_cons inside)
    rw [readLiteral_step inside]
    cases read : Literal.read? quote rest <;>
      simp [noQuote, noLine, plain, located, onward, read]

def expect (text : Bytes) (b : UInt8) (place : Nat) : OptionT Guarded Nat := do
  if ← sees text b place then return place + 1 else failure

theorem expect_eq (inside : rest <:+ text) (b : UInt8) :
    expect text b (placeOf text rest) = searched ((expect? b rest).map (placeOf text)) := by
  rw [expect, sees_eq inside]
  cases rest with
  | nil => simp [expect?]
  | cons c rest =>
    rw [placeOf_cons inside]
    by_cases same : c = b <;> simp [expect?, same]

/-! ### Functions -/

def readParameters (text : Bytes) (place : Nat) : OptionT Guarded Nat := do
  closeParens text ({} : History).openParen (← expect text leftParen place)

private theorem readParameters_eq (inside : rest <:+ text) :
    readParameters text (placeOf text rest) =
      searched ((Factory.parameters? rest).map (placeOf text)) := by
  rw [readParameters, expect_eq inside, Factory.parameters?]
  cases opened : expect? leftParen rest with
  | none => rfl
  | some after => simp [closeParens_eq ((expect?_suffix opened).trans inside)]

def readBody (text : Bytes) (place : Nat) : OptionT Guarded Nat := do
  expect text leftBrace (← skipGaps text place)

private theorem readBody_eq (inside : rest <:+ text) :
    readBody text (placeOf text rest) = searched ((Factory.body? rest).map (placeOf text)) := by
  simp [readBody, skipGaps_eq inside, expect_eq ((skipGaps_suffix rest).trans inside), Factory.body?]

/-- The place behind the star of a generator, if there is one. -/
def skipStar (text : Bytes) (place : Nat) : Guarded Nat := do
  let start ← skipGaps text place
  if ← sees text star start then skipGaps text (start + 1) else return start

private theorem skipStar_eq (inside : rest <:+ text) :
    let start := Script.skipGaps rest
    let name := ((expect? star start).map Script.skipGaps).getD start
    skipStar text (placeOf text rest) = some (placeOf text name) ∧ name <:+ text := by
  have begin := (skipGaps_suffix rest).trans inside
  dsimp only
  rw [skipStar, skipGaps_eq inside]
  generalize Script.skipGaps rest = start at begin ⊢
  cases start with
  | nil => simp [sees_eq begin, expect?]
  | cons b rest =>
    have behind := suffix_of_cons begin
    by_cases generator : b = star
    · subst generator
      simp [sees_eq begin, placeOf_cons begin, skipGaps_eq behind, expect?,
        (skipGaps_suffix rest).trans behind]
    · simp [sees_eq begin, expect?, generator, begin]

/-- The body of a function whose keyword is behind. -/
def readNamed (text : Bytes) (place : Nat) : OptionT Guarded Nat := do
  let list ← skipGaps text (← wordEnd text (← skipStar text place))
  readBody text (← readParameters text list)

private theorem readNamed_eq (inside : rest <:+ text) :
    readNamed text (placeOf text rest) = searched ((Factory.named? rest).map (placeOf text)) := by
  obtain ⟨skipped, behind⟩ := skipStar_eq inside
  rw [readNamed, skipped, Factory.named?, lift_some, pure_bind]
  generalize ((expect? star (Script.skipGaps rest)).map Script.skipGaps).getD
    (Script.skipGaps rest) = name at behind ⊢
  have word := (Word.split_suffix name).trans behind
  have list := (skipGaps_suffix _).trans word
  rw [wordEnd_eq behind, lift_some, pure_bind, skipGaps_eq word, lift_some, pure_bind,
    readParameters_eq list]
  cases parameters : Factory.parameters? (Script.skipGaps (Word.split name).2) with
  | none => rfl
  | some body => exact readBody_eq ((Factory.parameters?_suffix parameters).trans list)

def readArrowParameters (text : Bytes) (place : Nat) : OptionT Guarded Nat := do
  if ← sees text leftParen place then readParameters text place
  else if place < text.length then
    let b ← byte text place
    if Word.isStart b then
      let width ← blankLength text place
      if width = 0 then wordEnd text place else failure
    else failure
  else failure

private theorem readArrowParameters_eq (inside : rest <:+ text) :
    readArrowParameters text (placeOf text rest) =
      searched ((Factory.arrowParameters? rest).map (placeOf text)) := by
  rw [readArrowParameters, sees_eq inside, lift_some, pure_bind, readParameters_eq inside]
  cases rest with
  | nil => simp [placeOf_nil, Factory.arrowParameters?]
  | cons b rest =>
    rw [byte_eq inside, blankLength_eq inside, wordEnd_eq inside, Factory.arrowParameters?]
    by_cases list : b = leftParen
    · simp [list]
    · by_cases word : Word.isStart b = true
      · by_cases blank : isBlank (b :: rest) = true
        · have wide : blankWidth (b :: rest) ≠ 0 := fun none => by
            simp [blankWidth_eq_zero.mp none] at blank
          simp [list, word, blank, wide, placeOf_lt inside]
        · have narrow := blankWidth_eq_zero.mpr (Bool.eq_false_iff.mpr blank)
          simp [list, word, blank, narrow, placeOf_lt inside]
      · simp [list, word, placeOf_lt inside]

def readArrow (text : Bytes) (place : Nat) : OptionT Guarded Nat := do
  let arrow ← skipGaps text (← readArrowParameters text place)
  let two ← part text arrow (arrow + 2)
  if two = [equals, greater] then readBody text (arrow + 2) else failure

private theorem readArrow_eq (inside : rest <:+ text) :
    readArrow text (placeOf text rest) = searched ((Factory.arrow? rest).map (placeOf text)) := by
  rw [readArrow, readArrowParameters_eq inside, Factory.arrow?]
  cases parameters : Factory.arrowParameters? rest with
  | none => rfl
  | some after =>
    have behind := (Factory.arrowParameters?_suffix parameters).trans inside
    have arrow := (skipGaps_suffix after).trans behind
    simp only [Option.map_some, searched_some, pure_bind, skipGaps_eq behind, lift_some,
      part_take arrow, Option.bind_eq_bind, Option.bind_some]
    cases start : Script.skipGaps after with
    | nil => simp [expect?]
    | cons b more =>
      rw [start] at arrow
      cases more with
      | nil => by_cases equal : b = equals <;> simp [expect?, equal]
      | cons c body =>
        have inner := suffix_of_cons (suffix_of_cons arrow)
        by_cases arrows : b = equals ∧ c = greater
        · obtain ⟨rfl, rfl⟩ := arrows
          simp [expect?, placeOf_cons_cons arrow, readBody_eq inner]
        · by_cases equal : b = equals
          · have other : c ≠ greater := fun same => arrows ⟨equal, same⟩
            simp [expect?, equal, other]
          · simp [expect?, equal]

/-- The place inside the body of the function literal at a place. -/
def readFunction (text : Bytes) (place : Nat) : OptionT Guarded Nat := do
  let finish ← wordEnd text place
  let word ← part text place finish
  if word = utf8 "function" then readNamed text finish else readArrow text place

theorem readFunction_eq (inside : rest <:+ text) :
    readFunction text (placeOf text rest) =
      searched ((Factory.read? rest).map (placeOf text)) := by
  have word := (Word.split_suffix rest).trans inside
  rw [readFunction, wordEnd_eq inside, lift_some, pure_bind,
    part_eq inside (Word.split_append rest), lift_some, pure_bind, readNamed_eq word,
    readArrow_eq inside, Factory.read?]
  by_cases keyword : (Word.split rest).1 = utf8 "function" <;> simp [keyword]

end Guarded

end Unbundle.Script
