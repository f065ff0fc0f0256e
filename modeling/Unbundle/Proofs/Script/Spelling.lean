import Unbundle.Proofs.Script.Grammar
import Mathlib.Algebra.Group.Nat.Defs

/-!
How a literal writes characters. Main statement: the text that is read is the one that was written,
but for a character that is written as two halves, each of which is read as a character of its own.
-/

namespace Unbundle.Script

open Ascii

/-- The digits that write a value, in either case. -/
def IsDigitOf (value : Nat) (b : UInt8) : Prop :=
  (utf8 "0123456789abcdef")[value]? = some b ∨ (utf8 "0123456789ABCDEF")[value]? = some b

instance (value : Nat) (b : UInt8) : Decidable (IsDigitOf value b) :=
  inferInstanceAs (Decidable (_ ∨ _))

/-- A number in a given count of hexadecimal digits. -/
inductive Hex : Nat → Nat → Bytes → Prop
  | none : Hex 0 0 []
  | more {count value next : Nat} {digits : Bytes} {b : UInt8} (front : Hex count value digits)
      (last : IsDigitOf next b) : Hex (count + 1) (value * 16 + next) (digits ++ [b])

/-- The halves of a character beyond the first 65536. -/
def highHalf (char : Char) : Nat := 0xD800 + (char.toNat - 0x10000) / 0x400

def lowHalf (char : Char) : Nat := 0xDC00 + (char.toNat - 0x10000) % 0x400

/-- The letters that write a control character behind a backslash. -/
def controlLetters : List (Char × Char) :=
  [('n', '\n'), ('t', '\t'), ('r', '\r'), ('b', '\x08'), ('f', '\x0C'), ('v', '\x0B'),
   ('0', '\x00')]

inductive Style where
  | raw | letter | byte | unit | halves
  deriving DecidableEq, Repr

/-- Line breaks behind a backslash, which write nothing. -/
def continuations (count : Nat) : Bytes := (List.replicate count [backslash, newline]).flatten

/-- How a literal in the given quotes can write a character. -/
inductive Writes (quote : UInt8) (char : Char) : Style → Bytes → Prop
  | raw (plain : char.toNat ∉ [quote.toNat, newline.toNat, backslash.toNat]) :
      Writes quote char .raw (String.utf8EncodeChar char)
  | control {letter : Char} (meant : (letter, char) ∈ controlLetters) :
      Writes quote char .letter (backslash :: String.utf8EncodeChar letter)
  | itself (special : char.toNat ∈ [doubleQuote.toNat, singleQuote.toNat, backslash.toNat]) :
      Writes quote char .letter (backslash :: String.utf8EncodeChar char)
  | byte {digits : Bytes} (number : Hex 2 char.toNat digits) :
      Writes quote char .byte (utf8 "\\x" ++ digits)
  | unit {digits : Bytes} (number : Hex 4 char.toNat digits) :
      Writes quote char .unit (utf8 "\\u" ++ digits)
  | halves {high low : Bytes} (beyond : 0x10000 ≤ char.toNat) (first : Hex 4 (highHalf char) high)
      (second : Hex 4 (lowHalf char) low) (breaks : Nat) :
      Writes quote char .halves (utf8 "\\u" ++ high ++ continuations breaks ++ utf8 "\\u" ++ low)

/-- What stands between the quotes of a literal that writes characters. No digit follows the letter
for the NUL. -/
inductive Spells (quote : UInt8) : List (Char × Style) → Bytes → Prop
  | nil : Spells quote [] []
  | continued {chars : List (Char × Style)} {inside : Bytes} (more : Spells quote chars inside) :
      Spells quote chars (backslash :: newline :: inside)
  | cons {char : Char} {style : Style} {chars : List (Char × Style)} {written inside : Bytes}
      (first : Writes quote char style written)
      (apart : written = utf8 "\\0" → ∀ b, inside.head? = some b → isDigit b = false)
      (more : Spells quote chars inside) :
      Spells quote ((char, style) :: chars) (written ++ inside)

/-- A literal that writes a text, and no character of it in halves. -/
inductive Spelled : String → Bytes → Bytes → Prop
  | literal {quote : UInt8} {chars : List (Char × Style)} {inside rest : Bytes}
      (quotes : isQuote quote = true) (spells : Spells quote chars inside)
      (whole : ∀ char ∈ chars, char.2 ≠ .halves) :
      Spelled (String.ofList (chars.map Prod.fst)) (quote :: (inside ++ quote :: rest)) rest

/-- What is read for a character that is written in a style. -/
def decoded : Char × Style → Bytes
  | (char, .halves) => Literal.encodeUnit (highHalf char) ++ Literal.encodeUnit (lowHalf char)
  | (char, _) => String.utf8EncodeChar char

variable {quote b : UInt8} {char : Char} {style : Style} {count value next : Nat}
  {digits inside written rest text : Bytes} {chars : List (Char × Style)}
  {spelled : String}

private theorem IsDigitOf.lt (digit : IsDigitOf value b) : value < 16 := by
  rcases digit with found | found <;> exact (List.getElem?_eq_some_iff.mp found).1

private theorem isDigitOf_iff : IsDigitOf value b ↔
    ∃ digit, hexValue? b = some digit ∧ digit.toNat = value := by
  have written : ∀ value < 16,
      ((utf8 "0123456789abcdef")[value]?.bind hexValue?).map UInt8.toNat = some value ∧
      ((utf8 "0123456789ABCDEF")[value]?.bind hexValue?).map UInt8.toNat = some value := by
    decide +kernel
  have read : ((List.range 256).all fun code => (hexValue? (UInt8.ofNat code)).all fun digit =>
      decide (IsDigitOf digit.toNat (UInt8.ofNat code))) = true := by
    decide +kernel
  constructor
  · intro digit
    obtain ⟨lower, upper⟩ := written value digit.lt
    rw [← Option.map_eq_some_iff]
    rcases digit with found | found
    · rwa [found] at lower
    · rwa [found] at upper
  · rintro ⟨digit, found, rfl⟩
    have here := List.all_eq_true.mp read b.toNat (List.mem_range.mpr b.toNat_lt)
    rw [UInt8.ofNat_toNat, found] at here
    exact of_decide_eq_true here

theorem Hex.hexNumber? (number : Hex count value digits) (more : Nat) (text : Bytes) :
    Literal.hexNumber? (count + more) 0 (digits ++ text) =
      Literal.hexNumber? more value text := by
  induction number generalizing more text with
  | none => rw [Nat.zero_add, List.nil_append]
  | @more count value next digits b front last ih =>
    obtain ⟨digit, found, same⟩ := isDigitOf_iff.mp last
    rw [Nat.add_right_comm, Nat.add_assoc, List.append_assoc, ih, List.singleton_append,
      Literal.hexNumber?, found]
    exact congrArg (Literal.hexNumber? more · text) (congrArg (value * 16 + ·) same)

private theorem Hex.value_lt (number : Hex count value digits) : value < 16 ^ count := by
  induction number with
  | none => exact Nat.one_pos
  | more front last ih =>
    have small := last.lt
    rw [Nat.pow_succ]
    omega

theorem Hex.append (front : Hex count value digits) {more : Nat} {total : Nat}
    (found : Literal.hexNumber? more value text = some (total, [])) :
    Hex (count + more) total (digits ++ text) := by
  induction more generalizing count value digits text with
  | zero =>
    cases found
    rwa [List.append_nil]
  | succ more ih =>
    cases text with
    | nil => cases found
    | cons b text =>
      rw [Literal.hexNumber?] at found
      cases read : hexValue? b with
      | none => simp [read] at found
      | some digit =>
        rw [read] at found
        have onward := ih (front.more (isDigitOf_iff.mpr ⟨digit, read, rfl⟩)) found
        rwa [Nat.add_assoc, Nat.add_comm 1, List.append_assoc] at onward

/-- The numbers that are read are those that digits write. -/
theorem hex_iff : Hex count value digits ↔
    Literal.hexNumber? count 0 digits = some (value, []) := by
  constructor
  · intro number
    simpa [Literal.hexNumber?] using number.hexNumber? 0 []
  · intro found
    simpa using Hex.none.append found

theorem encodeUnit_eq (within : char.toNat < 0x10000) :
    Literal.encodeUnit char.toNat = String.utf8EncodeChar char := by
  have value : char.val.toNat = char.toNat := rfl
  simp only [Literal.encodeUnit, String.utf8EncodeChar, value]
  generalize char.toNat = unit at within
  by_cases one : unit < 0x80
  · have within : unit ≤ 127 := by omega
    simp [one, within]
  · have beyond : ¬unit ≤ 127 := by omega
    by_cases two : unit < 0x800
    · have within : unit ≤ 2047 := by omega
      have lead : unit / 64 % 32 = unit / 64 := by omega
      simp [one, two, beyond, within, lead, Nat.add_comm]
    · have far : ¬unit ≤ 2047 := by omega
      have within : unit ≤ 65535 := by omega
      have lead : unit / 4096 % 16 = unit / 4096 := by omega
      simp [one, two, beyond, far, within, lead, Nat.add_comm]

theorem mem_utf8EncodeChar (member : b ∈ String.utf8EncodeChar char) :
    b.toNat = char.toNat ∨ 0x80 ≤ b.toNat := by
  have value : char.val.toNat = char.toNat := rfl
  simp only [String.utf8EncodeChar, value] at member
  split at member
  · rw [List.mem_singleton.mp member, UInt8.toNat_ofNat']
    omega
  · right
    split at member <;> try split at member
    all_goals
      simp only [List.mem_cons, List.not_mem_nil, or_false] at member
      rcases member with rfl | rfl | rfl | rfl <;> rw [UInt8.toNat_ofNat'] <;> omega

theorem Spells.raw_append {plain : List Char}
    (known : ∀ char ∈ plain, char.toNat ∉ [quote.toNat, newline.toNat, backslash.toNat])
    (more : Spells quote chars inside) :
    Spells quote (plain.map (·, .raw) ++ chars)
      (plain.flatMap String.utf8EncodeChar ++ inside) := by
  induction plain with
  | nil => exact more
  | cons char plain ih =>
    have fresh := known char (List.mem_cons_self ..)
    rw [List.flatMap_cons, List.append_assoc]
    refine .cons (.raw fresh) (fun escaped => ?_)
      (ih fun char member => known char (List.mem_cons_of_mem _ member))
    have within : backslash ∈ String.utf8EncodeChar char := escaped ▸ by decide
    rcases mem_utf8EncodeChar within with same | far
    · simp [same] at fresh
    · exact absurd far (by decide)

namespace Literal

private theorem read?_hex (quotes : isQuote quote = true) {letter : UInt8}
    (counts : letter = 0x78 ∧ count = 2 ∨ letter = 0x75 ∧ count = 4)
    (number : Hex count value digits) (text : Bytes) :
    read? quote (backslash :: letter :: (digits ++ text)) =
      (read? quote text).map fun (spelled, after) => (encodeUnit value ++ spelled, after) := by
  have spelled : hexNumber? count 0 (digits ++ text) = some (value, text) := by
    simpa [hexNumber?] using number.hexNumber? 0 text
  have escaped : escape letter (digits ++ text) = (encodeUnit value, text) := by
    rcases counts with ⟨rfl, rfl⟩ | ⟨rfl, rfl⟩ <;> simp [escape, spelled]
  rw [read?_escape (ne_backslash quotes), escaped]

private theorem read?_continuations (quotes : isQuote quote = true) (count : Nat) (text : Bytes) :
    read? quote (continuations count ++ text) = read? quote text := by
  induction count with
  | zero => rfl
  | succ count ih =>
    have first : continuations (count + 1) = backslash :: newline :: continuations count := rfl
    have escaped (rest : Bytes) : escape newline rest = ([], rest) := rfl
    rw [first, List.cons_append, List.cons_append, read?_escape (ne_backslash quotes), escaped, ih]
    simp

private theorem escape_control {letter : Char} (meant : (letter, char) ∈ controlLetters) :
    ∃ b, String.utf8EncodeChar letter = [b] ∧
      ∀ text, escape b text = (String.utf8EncodeChar char, text) := by
  simp only [controlLetters, List.mem_cons, List.not_mem_nil, or_false, Prod.mk.injEq] at meant
  rcases meant with ⟨rfl, rfl⟩ | ⟨rfl, rfl⟩ | ⟨rfl, rfl⟩ | ⟨rfl, rfl⟩ | ⟨rfl, rfl⟩ | ⟨rfl, rfl⟩ |
    ⟨rfl, rfl⟩ <;> exact ⟨_, rfl, fun _ => rfl⟩

private theorem escape_itself
    (special : char.toNat ∈ [doubleQuote.toNat, singleQuote.toNat, backslash.toNat]) :
    ∃ b, String.utf8EncodeChar char = [b] ∧
      ∀ text, escape b text = (String.utf8EncodeChar char, text) := by
  have same := Char.ofNat_toNat char
  simp only [List.mem_cons, List.not_mem_nil, or_false] at special
  rcases special with is | is | is <;> rw [is] at same <;> subst same <;>
    exact ⟨_, rfl, fun _ => rfl⟩

theorem read?_writes (quotes : isQuote quote = true) (writes : Writes quote char style written)
    (text : Bytes) : read? quote (written ++ text) =
      (read? quote text).map fun (spelled, after) => (decoded (char, style) ++ spelled, after) := by
  cases writes with
  | raw plain =>
    refine read?_append (fun b member special => plain ?_) text
    rcases mem_utf8EncodeChar member with same | far
    · rw [← same]
      exact List.mem_map_of_mem (f := UInt8.toNat) special
    · have ascii : ∀ c ∈ [doubleQuote, singleQuote, newline, backslash], c.toNat < 0x80 := by
        decide +kernel
      have known : b ∈ [doubleQuote, singleQuote, newline, backslash] := by
        simp only [isQuote, Bool.or_eq_true, decide_eq_true_eq] at quotes
        simp only [List.mem_cons, List.not_mem_nil, or_false] at special ⊢
        rcases special with rfl | rfl | rfl
        · exact quotes.elim .inl (.inr ∘ .inl)
        · exact .inr (.inr (.inl rfl))
        · exact .inr (.inr (.inr rfl))
      exact absurd (ascii b known) (Nat.not_lt.mpr far)
  | control meant =>
    obtain ⟨b, single, escaped⟩ := escape_control meant
    rw [single, List.cons_append, List.singleton_append, read?_escape (ne_backslash quotes),
      escaped]
    rfl
  | itself special =>
    obtain ⟨b, single, escaped⟩ := escape_itself special
    rw [single, List.cons_append, List.singleton_append, read?_escape (ne_backslash quotes),
      escaped]
    rfl
  | byte number =>
    have within : char.toNat < 0x10000 := Nat.lt_trans number.value_lt (by decide)
    have read := read?_hex quotes (.inl ⟨rfl, rfl⟩) number text
    rwa [encodeUnit_eq within] at read
  | unit number =>
    have read := read?_hex quotes (.inr ⟨rfl, rfl⟩) number text
    rwa [encodeUnit_eq number.value_lt] at read
  | @halves high low beyond first second breaks =>
    have whole : utf8 "\\u" ++ high ++ continuations breaks ++ utf8 "\\u" ++ low ++ text =
        backslash :: 0x75 :: (high ++ (continuations breaks ++
          (backslash :: 0x75 :: (low ++ text)))) := by
      rw [show utf8 "\\u" = [backslash, 0x75] from rfl]
      simp
    rw [whole, read?_hex quotes (.inr ⟨rfl, rfl⟩) first, read?_continuations quotes,
      read?_hex quotes (.inr ⟨rfl, rfl⟩) second, Option.map_map]
    congr 1
    funext pair
    simp [decoded]

/-- A literal is read up to its closing quote, character by character. -/
theorem read?_spells (quotes : isQuote quote = true) (spells : Spells quote chars inside)
    (rest : Bytes) :
    read? quote (inside ++ quote :: rest) = some (chars.flatMap decoded, rest) := by
  induction spells with
  | nil => simp [read?_cons (ne_backslash quotes)]
  | continued more ih =>
    have skipped := read?_continuations quotes 1
    exact (skipped _).trans ih
  | cons first apart more ih =>
    rw [List.append_assoc, read?_writes quotes first, ih, List.flatMap_cons]
    rfl

end Literal

private theorem decoded_eq (whole : style ≠ .halves) :
    decoded (char, style) = String.utf8EncodeChar char := by
  cases style with
  | halves => exact absurd rfl whole
  | raw | letter | byte | unit => rfl

theorem length_decoded_halves (beyond : 0x10000 ≤ char.toNat) :
    (decoded (char, .halves)).length = (String.utf8EncodeChar char).length + 2 := by
  have value : char.val.toNat = char.toNat := rfl
  have three {unit : Nat} (far : 0xD800 ≤ unit) : (Literal.encodeUnit unit).length = 3 := by
    rw [Literal.encodeUnit, if_neg (by omega), if_neg (by omega)]
    rfl
  have four : (String.utf8EncodeChar char).length = 4 := by
    simp only [String.utf8EncodeChar, value]
    rw [if_neg (by omega), if_neg (by omega), if_neg (by omega)]
    rfl
  have high : 0xD800 ≤ highHalf char := Nat.le_add_right _ _
  have low : 0xD800 ≤ lowHalf char := Nat.le_trans (by decide) (Nat.le_add_right 0xDC00 _)
  rw [decoded, List.length_append, three high, three low, four]

theorem utf8_eq_nil {text : String} : utf8 text = [] ↔ text = "" :=
  List.length_eq_zero_iff.symm.trans String.utf8ByteSize_eq_zero_iff

private theorem utf8_ofList (chars : List Char) :
    utf8 (String.ofList chars) = chars.flatMap String.utf8EncodeChar := by
  rw [utf8, String.toUTF8, String.toByteArray_ofList, List.utf8Encode, List.toList_data_toByteArray]

private theorem length_flatMap_decoded (spells : Spells quote chars inside) :
    (chars.flatMap decoded).length = (utf8 (String.ofList (chars.map Prod.fst))).length +
      2 * chars.countP fun char => char.2 = .halves := by
  rw [utf8_ofList]
  induction spells with
  | nil => rfl
  | continued _ ih => exact ih
  | @cons char style chars _ _ first _ _ ih =>
    have here : (decoded (char, style)).length = (String.utf8EncodeChar char).length +
        2 * if style = .halves then 1 else 0 := by
      by_cases halved : style = .halves
      · subst halved
        cases first with
        | halves beyond => exact length_decoded_halves beyond
      · simp [decoded_eq halved, halved]
    simp only [List.flatMap_cons, List.map_cons, List.length_append, here, ih, List.countP_cons,
      decide_eq_true_eq]
    omega

/-- What is read is the text that was written, just if no character was written in halves. -/
theorem flatMap_decoded_iff (spells : Spells quote chars inside) :
    chars.flatMap decoded = utf8 (String.ofList (chars.map Prod.fst)) ↔
      ∀ char ∈ chars, char.2 ≠ .halves := by
  constructor
  · intro same char member halved
    have lengths := length_flatMap_decoded spells
    rw [same] at lengths
    have some : 0 < chars.countP fun char => char.2 = .halves :=
      List.countP_pos_iff.mpr ⟨char, member, decide_eq_true halved⟩
    omega
  · intro whole
    rw [utf8_ofList, List.flatMap_map]
    exact List.flatMap_congr fun (char, style) member => decoded_eq (whole _ member)

theorem Spelled.quoted? (literal : Spelled spelled text rest) :
    Literal.quoted? text = some (utf8 spelled, rest) := by
  obtain ⟨quotes, spells, whole⟩ := literal
  rw [Literal.quoted?, if_pos quotes, Literal.read?_spells quotes spells,
    (flatMap_decoded_iff spells).mpr whole]

/-- A text without its quote, a line break or a backslash is written as it is. -/
theorem Spelled.raw (quotes : isQuote quote = true) {text : String}
    (plain : ∀ char ∈ text.toList, char.toNat ∉ [quote.toNat, newline.toNat, backslash.toNat])
    (rest : Bytes) : Spelled text (quote :: (utf8 text ++ quote :: rest)) rest := by
  have spells := Spells.raw_append plain .nil
  have literal : Spelled _ (quote :: (_ ++ quote :: rest)) rest :=
    .literal quotes spells (by simp)
  have chars : String.ofList ((text.toList.map (·, Style.raw) ++ []).map Prod.fst) = text := by
    simp [Function.comp_def]
  have bytes : text.toList.flatMap String.utf8EncodeChar ++ [] = utf8 text := by
    rw [List.append_nil, ← utf8_ofList, String.ofList_toList]
  rwa [chars, bytes] at literal

end Unbundle.Script
