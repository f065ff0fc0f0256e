import Unbundle.Script.Word

/-!
Quoted literals: skipping over one, and reading the text that it spells. Skipping passes over
line breaks, reading refuses a bare one.
-/

namespace Unbundle.Script

open Ascii

/-- The text after the closing quote. A backslash takes the next byte with it. -/
def skipQuoted (quote : UInt8) : Bytes → Option Bytes
  | [] => none
  | b :: rest =>
    if b = backslash then
      match rest with
      | [] => none
      | _ :: after => skipQuoted quote after
    else if b = quote then some rest
    else skipQuoted quote rest

theorem skipQuoted_suffix {quote : UInt8} {text rest : Bytes}
    (found : skipQuoted quote text = some rest) : rest <:+ text := by
  fun_induction skipQuoted quote text with
  | case1 | case2 => simp at found
  | case3 _ after ih => exact (ih found).trans ((List.suffix_cons _ _).trans (List.suffix_cons _ _))
  | case4 => cases found; exact List.suffix_cons _ _
  | case5 b tail _ _ ih => exact (ih found).trans (List.suffix_cons _ _)

namespace Literal

/-- The number spelled by the given count of hexadecimal digits, and the text after them. -/
def hexNumber? (digits value : Nat) (text : Bytes) : Option (Nat × Bytes) :=
  match digits, text with
  | 0, text => some (value, text)
  | _ + 1, [] => none
  | digits + 1, b :: rest =>
    match hexValue? b with
    | none => none
    | some digit => hexNumber? digits (value * 16 + digit.toNat) rest

/-- A code unit in up to three bytes; the halves of a surrogate pair are written one by one. -/
def encodeUnit (unit : Nat) : Bytes :=
  if unit < 0x80 then [unit.toUInt8]
  else if unit < 0x800 then [(0xC0 + unit / 64).toUInt8, (0x80 + unit % 64).toUInt8]
  else [(0xE0 + unit / 4096).toUInt8, (0x80 + unit / 64 % 64).toUInt8, (0x80 + unit % 64).toUInt8]

/-- The control characters that a letter stands for after a backslash. -/
def controls : List (UInt8 × UInt8) :=
  [(0x6E, newline), (0x74, tab), (0x72, carriageReturn), (0x62, backspace), (0x66, formFeed),
   (0x76, verticalTab), (0x30, nul)]

/-- What a backslash and the given byte stand for, and the text after the escape. An escaped line
break stands for nothing, and any byte without a meaning of its own for itself. -/
def escape (letter : UInt8) (rest : Bytes) : Bytes × Bytes :=
  let number :=
    if letter = 0x78 then hexNumber? 2 0 rest
    else if letter = 0x75 then hexNumber? 4 0 rest
    else none
  match number with
  | some (unit, after) => (encodeUnit unit, after)
  | none =>
    if letter = newline then ([], rest) else ([(controls.lookup letter).getD letter], rest)

private theorem hexNumber?_suffix {digits value unit : Nat} {text rest : Bytes}
    (found : hexNumber? digits value text = some (unit, rest)) : rest <:+ text := by
  fun_induction hexNumber? digits value text with
  | case1 => cases found; exact List.suffix_refl _
  | case2 | case3 => simp at found
  | case4 _ _ _ _ _ _ ih => exact (ih found).trans (List.suffix_cons _ _)

theorem escape_suffix (letter : UInt8) (rest : Bytes) : (escape letter rest).2 <:+ rest := by
  simp only [escape]
  split
  · next number =>
    split at number
    · exact hexNumber?_suffix number
    · split at number
      · exact hexNumber?_suffix number
      · simp at number
  · split <;> exact List.suffix_refl _

/-- The text spelled up to the closing quote, and the text after it. -/
def read? (quote : UInt8) (text : Bytes) : Option (Bytes × Bytes) :=
  match text with
  | [] => none
  | b :: rest =>
    if b = quote then some ([], rest)
    else if b = newline then none
    else if b = backslash then
      match rest with
      | [] => none
      | letter :: tail =>
        (read? quote (escape letter tail).2).map fun (spelled, after) =>
          ((escape letter tail).1 ++ spelled, after)
    else (read? quote rest).map fun (spelled, after) => (b :: spelled, after)
termination_by text.length
decreasing_by
  · have := (escape_suffix letter tail).length_le
    simp only [List.length_cons]; omega
  · simp

theorem read?_suffix {quote : UInt8} {text spelled rest : Bytes}
    (found : read? quote text = some (spelled, rest)) : rest <:+ text := by
  fun_induction read? quote text generalizing spelled with
  | case1 | case3 | case4 => simp at found
  | case2 => cases found; exact List.suffix_cons _ _
  | case5 letter tail _ _ ih =>
    obtain ⟨⟨inner, after⟩, read, same⟩ := Option.map_eq_some_iff.mp found
    cases same
    exact (ih read).trans ((escape_suffix letter tail).trans
      ((List.suffix_cons _ _).trans (List.suffix_cons _ _)))
  | case6 b tail _ _ _ ih =>
    obtain ⟨⟨inner, after⟩, read, same⟩ := Option.map_eq_some_iff.mp found
    cases same
    exact (ih read).trans (List.suffix_cons _ _)

/-- The text of the literal that must come next, and the text after it. -/
def quoted? : Bytes → Option (Bytes × Bytes)
  | [] => none
  | b :: rest => if isQuote b then read? b rest else none

theorem quoted?_suffix {text spelled rest : Bytes} (found : quoted? text = some (spelled, rest)) :
    rest <:+ text := by
  cases text with
  | nil => simp [quoted?] at found
  | cons b tail =>
    simp only [quoted?, Option.ite_none_right_eq_some] at found
    exact (read?_suffix found.2).trans (List.suffix_cons _ _)

end Literal

end Unbundle.Script
