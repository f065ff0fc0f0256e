import Unbundle.Script.Balance

namespace Unbundle.Script

open Ascii

/-- The text after the given byte, if it stands at the front. -/
def expect? (b : UInt8) : Bytes → Option Bytes
  | [] => none
  | c :: rest => if c = b then some rest else none

theorem expect?_eq_some {b : UInt8} {text rest : Bytes} (found : expect? b text = some rest) :
    text = b :: rest := by
  cases text with
  | nil => simp [expect?] at found
  | cons c tail =>
    simp only [expect?, Option.ite_none_right_eq_some, Option.some.injEq] at found
    rw [found.1, found.2]

theorem expect?_suffix {b : UInt8} {text rest : Bytes} (found : expect? b text = some rest) :
    rest <:+ text := by
  rw [expect?_eq_some found]; exact List.suffix_cons _ _

namespace Factory

/-- The text after a parameter list in parentheses. -/
def parameters? (text : Bytes) : Option Bytes :=
  (expect? leftParen text).bind (closeParens ({} : History).openParen)

/-- The text inside the body brace that must come next. -/
def body? (text : Bytes) : Option Bytes := expect? leftBrace (skipGaps text)

/-- The body of a function whose keyword is behind: a star may mark a generator, and a name may
follow. -/
def named? (text : Bytes) : Option Bytes :=
  let start := skipGaps text
  let start := ((expect? star start).map skipGaps).getD start
  (parameters? (skipGaps (Word.split start).2)).bind body?

/-- The text after the parameters of an arrow function: a list in parentheses or one name. -/
def arrowParameters? (text : Bytes) : Option Bytes :=
  match text with
  | [] => none
  | b :: _ =>
    if b = leftParen then parameters? text
    else if Word.isStart b && !isBlank text then some (Word.split text).2
    else none

def arrow? (text : Bytes) : Option Bytes := do
  let after ← arrowParameters? text
  let arrow ← expect? equals (skipGaps after)
  body? (← expect? greater arrow)

/-- The text inside the body of the function literal at the front. -/
def read? (text : Bytes) : Option Bytes :=
  let (word, rest) := Word.split text
  if word = utf8 "function" then named? rest else arrow? text

theorem parameters?_suffix {text rest : Bytes} (found : parameters? text = some rest) :
    rest <:+ text := by
  obtain ⟨inner, opened, closed⟩ := Option.bind_eq_some_iff.mp found
  exact (closeParens_suffix closed).trans (expect?_suffix opened)

private theorem body?_suffix {text rest : Bytes} (found : body? text = some rest) : rest <:+ text :=
  (expect?_suffix found).trans (skipGaps_suffix text)

private theorem named?_suffix {text rest : Bytes} (found : named? text = some rest) :
    rest <:+ text := by
  obtain ⟨after, list, body⟩ := Option.bind_eq_some_iff.mp found
  refine (body?_suffix body).trans ((parameters?_suffix list).trans ((skipGaps_suffix _).trans
    ((Word.split_suffix _).trans ?_)))
  cases generator : expect? star (skipGaps text) with
  | none => simpa using skipGaps_suffix text
  | some inner =>
    simpa using (skipGaps_suffix inner).trans
      ((expect?_suffix generator).trans (skipGaps_suffix text))

theorem arrowParameters?_suffix {text rest : Bytes} (found : arrowParameters? text = some rest) :
    rest <:+ text := by
  unfold arrowParameters? at found
  split at found
  · simp at found
  · split at found
    · exact parameters?_suffix found
    · split at found
      · cases found; exact Word.split_suffix _
      · simp at found

private theorem arrow?_suffix {text rest : Bytes} (found : arrow? text = some rest) :
    rest <:+ text := by
  obtain ⟨after, list, found⟩ := Option.bind_eq_some_iff.mp found
  obtain ⟨arrow, equal, found⟩ := Option.bind_eq_some_iff.mp found
  obtain ⟨inner, greater, body⟩ := Option.bind_eq_some_iff.mp found
  exact (body?_suffix body).trans ((expect?_suffix greater).trans ((expect?_suffix equal).trans
    ((skipGaps_suffix after).trans (arrowParameters?_suffix list))))

theorem read?_suffix {text rest : Bytes} (found : read? text = some rest) : rest <:+ text := by
  simp only [read?] at found
  split at found
  · exact (named?_suffix found).trans (Word.split_suffix text)
  · exact arrow?_suffix found

end Factory

end Unbundle.Script
