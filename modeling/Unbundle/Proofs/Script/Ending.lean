import Unbundle.Proofs.Script.Locality

namespace Unbundle.Script

open Ascii

private theorem stops : Stop rightBrace := .of_isCloser rfl

variable {text rest : Bytes}

/-- The text without the brace that ends it. -/
theorem eq_concat_of_suffix (suffix : rest <:+ text ++ [rightBrace]) (nonempty : rest ≠ []) :
    ∃ inside, rest = inside ++ [rightBrace] ∧ inside <:+ text := by
  obtain ⟨inside, b, rfl⟩ := (List.eq_nil_or_concat' rest).resolve_left nonempty
  obtain ⟨taken, whole⟩ := suffix
  rw [← List.append_assoc] at whole
  obtain ⟨same, last⟩ := List.append_inj' whole rfl
  obtain rfl := List.singleton_inj.mp last
  exact ⟨inside, rfl, taken, same⟩

private theorem skipQuoted_of_concat {quote : UInt8}
    (found : skipQuoted quote (text ++ [rightBrace]) = some (rest ++ [rightBrace])) :
    skipQuoted quote text = some rest := by
  obtain ⟨taken, whole, skips⟩ := skipQuoted_local found
  rw [← List.append_assoc] at whole
  rw [List.append_cancel_right whole]
  exact skips rest

private theorem blockEnd?_of_concat
    (found : blockEnd? (text ++ [rightBrace]) = some (rest ++ [rightBrace])) :
    blockEnd? text = some rest := by
  obtain ⟨taken, whole, ends⟩ := blockEnd?_local found
  rw [← List.append_assoc] at whole
  rw [List.append_cancel_right whole]
  exact ends rest

private theorem lineEnd_concat (text : Bytes) :
    lineEnd (text ++ [rightBrace]) = if newline ∈ text then lineEnd text ++ [rightBrace] else [] :=
  lineEnd_append_cons stops text []

private theorem head?_concat {b : UInt8} (different : b ≠ rightBrace) :
    (text ++ [rightBrace]).head? = some b ↔ text.head? = some b := by
  cases text with
  | nil => simpa using different.symm
  | cons c text => rfl

private theorem tail_concat {b : UInt8} (start : text.head? = some b) :
    (text ++ [rightBrace]).tail = text.tail ++ [rightBrace] := by
  cases text with
  | nil => cases start
  | cons c text => rfl

private theorem skipRegex_eq_none (unclosed : skipRegex false (text ++ [rightBrace]) = none) :
    skipRegex false text = none := by
  cases found : skipRegex false text with
  | none => rfl
  | some after =>
    have closed := skipRegex_append_cons stops found []
    rw [unclosed] at closed
    cases closed

namespace Piece

private theorem ofSlash_of_concat {divides : Bool} {piece : Piece}
    (read : ofSlash divides (text ++ [rightBrace]) = some piece)
    (inside : piece.rest = rest ++ [rightBrace]) :
    ofSlash divides text = some (piece.withRest rest) := by
  rw [ofSlash] at read ⊢
  by_cases line : text.head? = some slash
  · rw [if_pos ((head?_concat (by decide)).mpr line)] at read
    rw [if_pos line]
    cases read
    rw [Piece.rest, lineEnd_concat] at inside
    by_cases breaks : newline ∈ text
    · rw [if_pos breaks] at inside
      rw [List.append_cancel_right inside]
      rfl
    · rw [if_neg breaks] at inside
      exact absurd inside.symm (List.append_ne_nil_of_right_ne_nil _ (List.cons_ne_nil _ _))
  rw [if_neg (mt (head?_concat (by decide)).mp line)] at read
  rw [if_neg line]
  by_cases block : text.head? = some star
  · rw [if_pos ((head?_concat (by decide)).mpr block), tail_concat block] at read
    rw [if_pos block]
    obtain ⟨after, ended, rfl⟩ := Option.map_eq_some_iff.mp read
    rw [Piece.rest] at inside
    rw [inside] at ended
    rw [blockEnd?_of_concat ended]
    rfl
  rw [if_neg (mt (head?_concat (by decide)).mp block)] at read
  rw [if_neg block]
  by_cases divide : divides = true
  · rw [if_pos divide] at read ⊢
    cases read
    rw [List.append_cancel_right inside]
    rfl
  rw [if_neg divide] at read ⊢
  cases regex : skipRegex false (text ++ [rightBrace]) with
  | none =>
    rw [regex] at read
    cases read
    rw [skipRegex_eq_none regex, List.append_cancel_right inside]
    rfl
  | some after =>
    rw [regex] at read
    obtain rfl : literal after = piece := Option.some.inj read
    rw [Piece.rest] at inside
    rw [inside] at regex
    rw [skipRegex_of_append_cons stops regex]
    rfl

/-- What is read in front of the closing brace is read without it. -/
theorem read?_of_concat {divides : Bool} {piece : Piece}
    (read : read? divides (text ++ [rightBrace]) = some piece)
    (inside : piece.rest = rest ++ [rightBrace]) :
    read? divides text = some (piece.withRest rest) := by
  cases text with
  | nil =>
    rw [List.nil_append, @read?_closer rightBrace rfl, if_neg (by decide)] at read
    cases read
    exact absurd inside.symm (List.append_ne_nil_of_right_ne_nil _ (List.cons_ne_nil _ _))
  | cons b text =>
    rw [List.cons_append, read?, ← List.cons_append, blank?_append_cons stops] at read
    rw [read?]
    cases blank : blank? (b :: text) with
    | some after =>
      rw [blank] at read
      cases read
      rw [List.append_cancel_right inside]
      rfl
    | none =>
      rw [blank] at read
      dsimp only [Option.map_none] at read ⊢
      by_cases quote : isQuote b = true
      · rw [if_pos quote] at read ⊢
        obtain ⟨after, closed, rfl⟩ := Option.map_eq_some_iff.mp read
        rw [Piece.rest] at inside
        rw [inside] at closed
        rw [skipQuoted_of_concat closed]
        rfl
      rw [if_neg quote] at read ⊢
      by_cases tick : b = backtick
      · rw [if_pos tick] at read ⊢
        cases read
        rw [List.append_cancel_right inside]
        rfl
      rw [if_neg tick] at read ⊢
      by_cases divided : b = slash
      · rw [if_pos divided] at read ⊢
        exact ofSlash_of_concat read inside
      rw [if_neg divided] at read ⊢
      by_cases part : Word.isPart b = true
      · rw [if_pos part, List.cons_append, ← List.cons_append,
          Word.split_append_cons stops] at read
        rw [if_pos part]
        cases read
        rw [List.append_cancel_right inside]
        rfl
      rw [if_neg part] at read ⊢
      by_cases twice : divides = true ∧ (b = plus ∨ b = minus) ∧ text.head? = some b
      · have different : b ≠ rightBrace := by
          rcases twice.2.1 with rfl | rfl <;> decide
        rw [if_pos ⟨twice.1, twice.2.1, (head?_concat different).mpr twice.2.2⟩,
          tail_concat twice.2.2] at read
        rw [if_pos twice]
        cases read
        rw [List.append_cancel_right inside]
        rfl
      · have single : ¬(divides = true ∧ (b = plus ∨ b = minus) ∧
            (text ++ [rightBrace]).head? = some b) := by
          rintro ⟨divide, operator, again⟩
          have different : b ≠ rightBrace := by
            rcases operator with rfl | rfl <;> decide
          exact twice ⟨divide, operator, (head?_concat different).mp again⟩
        rw [if_neg single] at read
        rw [if_neg twice]
        cases read
        rw [List.append_cancel_right inside]
        rfl

end Piece

def TemplateStop.withRest : TemplateStop → Bytes → TemplateStop
  | closed _, rest => closed rest
  | expression _, rest => expression rest

theorem templateStop?_of_concat {stop : TemplateStop}
    (found : templateStop? (text ++ [rightBrace]) = some stop)
    (inside : stop.rest = rest ++ [rightBrace]) :
    templateStop? text = some (stop.withRest rest) := by
  obtain ⟨taken, ⟨after, rfl, whole, stops⟩ | ⟨after, rfl, whole, stops⟩⟩ :=
    templateStop?_local found
  · obtain rfl : after = rest ++ [rightBrace] := inside
    rw [← List.cons_append, ← List.append_assoc] at whole
    rw [List.append_cancel_right whole]
    exact stops rest
  · obtain rfl : after = rest ++ [rightBrace] := inside
    rw [← List.cons_append, ← List.cons_append, ← List.append_assoc] at whole
    rw [List.append_cancel_right whole]
    exact stops rest

end Unbundle.Script
