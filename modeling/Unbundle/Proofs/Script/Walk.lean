import Unbundle.Proofs.Script.Pieces
import Unbundle.Proofs.Script.Shown

/-!
Walks over the words of code. Main statement: a walk by place neither fails nor goes on for ever, and
finds what a walk from the front finds, if their visitors agree at each word.
-/

namespace Unbundle.Script

open Ascii

/-- Where a walk stands: whether a dot is behind it, what it remembers, and the text in front of
it. -/
structure Stand where
  afterDot : Bool := false
  history : History := {}
  text : Bytes

namespace Visitor

variable {α : Type} {visitor : Visitor α} {afterDot : Bool} {history : History}
  {text rest word : Bytes} {first stand last : Stand} {found more : List α} {item : α}

/-- One step of a walk, with what the visitor finds in it. -/
inductive Moves (visitor : Visitor α) : Stand → List α → Stand → Prop
  | piece {afterDot : Bool} {history : History} {text : Bytes} {piece : Piece}
      (read : Piece.read? history.divides text = some piece)
      (noTemplate : ∀ rest, piece ≠ .template rest) (noWord : ∀ word rest, piece ≠ .word word rest) :
      Moves visitor ⟨afterDot, history, text⟩ []
        ⟨piece.dots afterDot, history.after piece, piece.rest⟩
  | template {afterDot : Bool} {history : History} {text rest after : Bytes}
      (read : Piece.read? history.divides text = some (.template rest))
      (closed : closeFrame .template [] rest = some after) :
      Moves visitor ⟨afterDot, history, text⟩ [] ⟨afterDot, history.operand, after⟩
  | word {afterDot : Bool} {history : History} {text word rest : Bytes}
      (read : Piece.read? history.divides text = some (.word word rest))
      (stays : (visitor.visit afterDot word rest).past = none) :
      Moves visitor ⟨afterDot, history, text⟩ (visitor.visit afterDot word rest).found
        ⟨false, history.word word, rest⟩
  | passed {afterDot : Bool} {history : History} {text word rest past : Bytes}
      (read : Piece.read? history.divides text = some (.word word rest))
      (passes : (visitor.visit afterDot word rest).past = some past) :
      Moves visitor ⟨afterDot, history, text⟩ (visitor.visit afterDot word rest).found
        ⟨false, history.operand, past⟩

/-- A walk from one place comes to another, with what the visitor finds on the way. -/
inductive Walks (visitor : Visitor α) : Stand → List α → Stand → Prop
  | refl (stand : Stand) : Walks visitor stand [] stand
  | step {first stand last : Stand} {found more : List α} (moves : visitor.Moves first found stand)
      (onward : Walks visitor stand more last) : Walks visitor first (found ++ more) last

/-- All that the visitor finds from a place on. -/
def walkFrom (visitor : Visitor α) (stand : Stand) : List α :=
  visitor.walk stand.afterDot stand.history stand.text

theorem Moves.walkFrom_eq (moves : visitor.Moves first found last) :
    visitor.walkFrom first = found ++ visitor.walkFrom last := by
  cases moves with
  | @piece afterDot history text piece read noTemplate noWord =>
    have walked : visitor.walk afterDot history text = visitor.onward afterDot history piece :=
      visitor.walk_read read
    cases piece with
    | template rest => exact absurd rfl (noTemplate rest)
    | word word rest => exact absurd rfl (noWord word rest)
    | gap | literal | increment | mark => exact walked
  | template read closed => exact visitor.walk_template read closed
  | @word afterDot history text word rest read stays =>
    rw [walkFrom, visitor.walk_word read, stays]
    rfl
  | passed read passes =>
    rw [walkFrom, visitor.walk_word read, passes]
    rfl

theorem Moves.suffix (moves : visitor.Moves first found last) : last.text <:+ first.text := by
  cases moves with
  | piece read => exact Piece.rest_suffix read
  | template read closed => exact (closeFrame_suffix closed).trans (Piece.rest_suffix read)
  | word read => exact Piece.rest_suffix read
  | passed read passes => exact (visitor.suffix passes).trans (Piece.rest_suffix read)

theorem Walks.walkFrom_eq (walks : visitor.Walks first found last) :
    visitor.walkFrom first = found ++ visitor.walkFrom last := by
  induction walks with
  | refl => rfl
  | step moves _ ih => rw [moves.walkFrom_eq, ih, List.append_assoc]

theorem Walks.suffix (walks : visitor.Walks first found last) : last.text <:+ first.text := by
  induction walks with
  | refl => exact List.suffix_refl _
  | step moves _ ih => exact ih.trans moves.suffix

/-- The item is found at a word that a walk from the place comes to. -/
def Finds (visitor : Visitor α) (first : Stand) (item : α) : Prop :=
  ∃ found afterDot history word rest,
    visitor.Walks first found ⟨afterDot, history, word ++ rest⟩ ∧
    Piece.read? history.divides (word ++ rest) = some (.word word rest) ∧
    item ∈ (visitor.visit afterDot word rest).found

theorem Finds.behind (finds : visitor.Finds stand item) (moves : visitor.Moves first found stand) :
    visitor.Finds first item := by
  obtain ⟨more, afterDot, history, word, rest, walks, reached⟩ := finds
  exact ⟨found ++ more, afterDot, history, word, rest, .step moves walks, reached⟩

theorem finds_of_mem_walk (member : item ∈ visitor.walk afterDot history text) :
    visitor.Finds ⟨afterDot, history, text⟩ item := by
  fun_induction Visitor.walk visitor afterDot history text with
  | case1 => exact absurd member List.not_mem_nil
  | case2 => exact absurd member List.not_mem_nil
  | case3 afterDot history text after read past closed ih =>
    exact (ih member).behind (.template read closed)
  | case4 afterDot history text word after read visit past passes ih =>
    obtain rfl := Piece.append_of_read?_word read
    rcases List.mem_append.mp member with here | later
    · exact ⟨[], afterDot, history, word, after, .refl _, read, here⟩
    · exact (ih later).behind (.passed read passes)
  | case5 afterDot history text word after read visit stays ih =>
    obtain rfl := Piece.append_of_read?_word read
    rcases List.mem_append.mp member with here | later
    · exact ⟨[], afterDot, history, word, after, .refl _, read, here⟩
    · exact (ih later).behind (.word read stays)
  | case6 afterDot history text after read ih =>
    exact (ih member).behind (.piece read nofun nofun)
  | case7 afterDot history text b after read ih =>
    exact (ih member).behind (.piece read nofun nofun)
  | case8 afterDot history text piece noTemplate noWord noIncrement noMark read ih =>
    refine Finds.behind ?_ (.piece read noTemplate noWord)
    cases piece with
    | template after => exact absurd rfl (noTemplate after)
    | word word after => exact absurd rfl (noWord word after)
    | increment after => exact absurd rfl (noIncrement after)
    | mark b after => exact absurd rfl (noMark b after)
    | gap | literal => exact ih member

/-- Each item of a walk was found at some word of the text. -/
theorem exists_visit (visitor : Visitor α) (inside : rest <:+ text)
    (member : item ∈ visitor.walk afterDot history rest) :
    ∃ afterDot word rest, word ++ rest <:+ text ∧
      item ∈ (visitor.visit afterDot word rest).found := by
  obtain ⟨_, behind, _, word, after, walks, _, found⟩ := finds_of_mem_walk member
  exact ⟨behind, word, after, walks.suffix.trans inside, found⟩

end Visitor

namespace Guarded

variable {text rest : Bytes}

/-- Walks over the words of code and shows a visitor where each one begins and ends. -/
def walk {α : Type} (text : Bytes) (visit : Bool → Nat → Nat → Guarded (List α × Option Nat))
    (afterDot : Bool) (history : History) (place : Nat) : Guarded (List α) :=
  letI again : Bytes → (Bool → Nat → Nat → Guarded (List α × Option Nat)) → Bool → History → Nat →
      Guarded (List α) := by apply walk
  do
  match ← (readPiece text history.divides place).run with
  | none => return []
  | some (.template, past) =>
    match ← (closeFrame text .template [] past).run with
    | none => return []
    | some past => again text visit afterDot history.operand past
  | some (.word word, finish) =>
    let (found, past) ← visit afterDot place finish
    match past with
    | some past => return found ++ (← again text visit false history.operand past)
    | none => return found ++ (← again text visit false (history.word word) finish)
  | some (.increment, past) => again text visit false history.operand past
  | some (.mark b, past) => again text visit (b = dot) (history.mark b) past
  | some (token, past) => again text visit afterDot (history.note token) past
partial_fixpoint

theorem walk_eq {α : Type} {visitor : Visitor α}
    {visit : Bool → Nat → Nat → Guarded (List α × Option Nat)}
    (agrees : ∀ afterDot word rest, word ++ rest <:+ text →
      visit afterDot (placeOf text (word ++ rest)) (placeOf text rest) =
        some ((visitor.visit afterDot word rest).found,
          (visitor.visit afterDot word rest).past.map (placeOf text)))
    {afterDot : Bool} {history : History} (inside : rest <:+ text) :
    walk text visit afterDot history (placeOf text rest) =
      some (visitor.walk afterDot history rest) := by
  fun_induction Visitor.walk visitor afterDot history rest with
  | case1 afterDot history rest unread =>
    rw [walk]
    simp [readPiece_eq inside, unread]
  | case2 afterDot history rest after read unclosed =>
    have behind : after <:+ text := (Piece.rest_suffix read).trans inside
    rw [walk]
    simp [readPiece_eq inside, read, Piece.rest, closeFrame_eq behind,
      unclosed]
  | case3 afterDot history rest after read past closed ih =>
    have behind : after <:+ text := (Piece.rest_suffix read).trans inside
    have onward := ih ((closeFrame_suffix closed).trans behind)
    rw [walk]
    simp [readPiece_eq inside, read, Piece.rest, closeFrame_eq behind,
      closed, onward]
  | case4 afterDot history rest word after read visited past passed ih =>
    have behind : after <:+ text := (Piece.rest_suffix read).trans inside
    have onward := ih ((visitor.suffix passed).trans behind)
    obtain rfl := Piece.append_of_read?_word read
    rw [walk]
    simp [readPiece_eq inside, read, Piece.rest,
      agrees afterDot word after inside, passed, onward]
    rfl
  | case5 afterDot history rest word after read visited stays ih =>
    have onward := ih ((Piece.rest_suffix read).trans inside)
    obtain rfl := Piece.append_of_read?_word read
    rw [walk]
    simp [readPiece_eq inside, read, Piece.rest,
      agrees afterDot word after inside, stays, onward]
    rfl
  | case6 afterDot history rest after read ih =>
    have onward := ih ((Piece.rest_suffix read).trans inside)
    rw [walk]
    simp [readPiece_eq inside, read, Piece.rest, onward]
  | case7 afterDot history rest b after read ih =>
    have onward := ih ((Piece.rest_suffix read).trans inside)
    rw [walk]
    simp [readPiece_eq inside, read, Piece.rest, onward]
  | case8 afterDot history rest piece noTemplate noWord noIncrement noMark read ih =>
    have onward := ih ((Piece.rest_suffix read).trans inside)
    rw [walk]
    cases piece with
    | template after => exact (noTemplate after rfl).elim
    | word word after => exact (noWord word after rfl).elim
    | increment after => exact (noIncrement after rfl).elim
    | mark b after => exact (noMark b after rfl).elim
    | gap | literal =>
      simpa [readPiece_eq inside, read, History.after_eq, Piece.rest]
        using onward

end Guarded

end Unbundle.Script
