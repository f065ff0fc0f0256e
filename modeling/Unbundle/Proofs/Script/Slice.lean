import Unbundle.Proofs.Script.Grammar
import Mathlib.Logic.Relation

namespace Unbundle.Script

open Ascii

/-- What is read off the front of a text is read alike where the text behind it is cut short. -/
def Local (reads : Bytes → Bytes → Prop) : Prop :=
  ∀ ⦃text rest⦄, reads text rest → ∃ taken, text = taken ++ rest ∧
    ∀ other, other <+: rest → reads (taken ++ other) other

/-- What is read so ends with the given byte. -/
def LocalTo (stop : UInt8) (reads : Bytes → Bytes → Prop) : Prop :=
  ∀ ⦃text rest⦄, reads text rest → ∃ taken, text = taken ++ stop :: rest ∧
    ∀ other, other <+: rest → reads (taken ++ stop :: other) other

variable {first second reads : Bytes → Bytes → Prop} {text rest other inside : Bytes}
  {stop quote b : UInt8}

theorem Local.comp (front : Local first) (back : Local second) :
    Local (Relation.Comp first second) := by
  rintro text rest ⟨middle, begins, ends⟩
  obtain ⟨taken, rfl, again⟩ := front begins
  obtain ⟨further, rfl, onward⟩ := back ends
  refine ⟨taken ++ further, (List.append_assoc ..).symm, fun other kept => ?_⟩
  rw [List.append_assoc]
  exact ⟨_, again _ ((List.prefix_append_right_inj further).mpr kept), onward other kept⟩

private theorem Local.compTo (front : Local first) (back : LocalTo stop second) :
    LocalTo stop (Relation.Comp first second) := by
  rintro text rest ⟨middle, begins, ends⟩
  obtain ⟨taken, rfl, again⟩ := front begins
  obtain ⟨further, rfl, onward⟩ := back ends
  refine ⟨taken ++ further, (List.append_assoc ..).symm, fun other kept => ?_⟩
  rw [List.append_assoc]
  exact ⟨_, again _ ((List.prefix_append_right_inj further).mpr
    (List.cons_prefix_cons.mpr ⟨rfl, kept⟩)), onward other kept⟩

theorem LocalTo.local (ends : LocalTo stop reads) : Local reads := by
  intro text rest read
  obtain ⟨taken, rfl, again⟩ := ends read
  exact ⟨taken ++ [stop], by simp, fun other kept => by simpa using again other kept⟩

/-- A word ends where it does as long as a stop remains behind it. -/
theorem LocalTo.word (stops : Stop stop) (ends : LocalTo stop reads) (name : Bytes) :
    LocalTo stop fun text rest => ∃ behind, Word.split text = (name, behind) ∧ reads behind rest := by
  rintro text rest ⟨behind, word, read⟩
  obtain ⟨taken, rfl, again⟩ := ends read
  have whole := Word.split_append text
  rw [word, ← List.append_assoc] at whole
  refine ⟨name ++ taken, whole.symm, fun other kept => ⟨_, ?_, again other kept⟩⟩
  rw [← whole, Word.split_append_cons stops] at word
  obtain ⟨named, left⟩ := Prod.mk.inj word
  rw [Word.split_append_cons stops, named, List.append_cancel_right left]

/-! ### Gaps and literals -/

theorem local_gaps : Local Gaps := by
  intro text rest gaps
  induction gaps with
  | stop unblank noLine noBlock =>
    refine ⟨[], rfl, fun other kept => .stop (fun spelling member begun => ?_) ?_ ?_⟩
    · exact unblank spelling member (begun.trans kept)
    · exact fun begun => noLine (begun.trans kept)
    · exact fun begun => noBlock (begun.trans kept)
  | @blank spelling text rest member onward ih =>
    obtain ⟨taken, rfl, again⟩ := ih
    refine ⟨spelling ++ taken, (List.append_assoc ..).symm, fun other kept => ?_⟩
    rw [List.append_assoc]
    exact .blank member (again other kept)
  | @line comment text rest inside onward ih =>
    obtain ⟨taken, rfl, again⟩ := ih
    refine ⟨slash :: slash :: (comment ++ newline :: taken), by simp, fun other kept => ?_⟩
    have line := Gaps.line inside (again other kept)
    simpa using line
  | @block comment text rest inside onward ih =>
    obtain ⟨taken, rfl, again⟩ := ih
    refine ⟨slash :: star :: (comment ++ star :: slash :: taken), by simp, fun other kept => ?_⟩
    have block := Gaps.block inside (again other kept)
    simpa using block
  | @lastLine comment inside =>
    refine ⟨slash :: slash :: comment, (List.append_nil _).symm, fun other kept => ?_⟩
    obtain rfl := List.prefix_nil.mp kept
    rw [List.append_nil]
    exact .lastLine inside
  | @lastBlock comment inside =>
    refine ⟨slash :: star :: comment, (List.append_nil _).symm, fun other kept => ?_⟩
    obtain rfl := List.prefix_nil.mp kept
    rw [List.append_nil]
    exact .lastBlock inside

theorem localTo_gaps (b : UInt8) : LocalTo b fun text rest => Gaps text (b :: rest) := by
  intro text rest gaps
  obtain ⟨taken, rfl, again⟩ := local_gaps gaps
  exact ⟨taken, rfl, fun other kept => again _ (List.cons_prefix_cons.mpr ⟨rfl, kept⟩)⟩

theorem localTo_cons (b : UInt8) : LocalTo b fun text rest => text = b :: rest := by
  rintro _ rest rfl
  exact ⟨[], rfl, fun other _ => rfl⟩

theorem local_quoted? (spelled : Bytes) :
    Local fun text rest => Literal.quoted? text = some (spelled, rest) := by
  intro text rest found
  cases text with
  | nil => cases found
  | cons quote text =>
    simp only [Literal.quoted?, Option.ite_none_right_eq_some] at found
    obtain ⟨quotes, read⟩ := found
    obtain ⟨inside, quotable, rfl⟩ := Literal.quotable_of_read? quotes read
    obtain ⟨same, again⟩ := Literal.read?_quotable quotes quotable
    obtain rfl : same = spelled := by simpa [again] using read
    refine ⟨quote :: (inside ++ [quote]), by simp, fun other _ => ?_⟩
    have whole : quote :: (inside ++ [quote]) ++ other = quote :: (inside ++ quote :: other) := by simp
    rw [whole]
    exact (if_pos quotes).trans (again other)

/-! ### Parentheses and functions -/

theorem skipRegex_append {inClass : Bool} (closed : skipRegex inClass text ≠ none) (more : Bytes) :
    skipRegex inClass (text ++ more) ≠ none := by
  fun_induction skipRegex inClass text with
  | case1 | case2 | case4 => exact absurd rfl closed
  | case3 inClass b tail ih => simpa [skipRegex] using ih closed
  | case5 b tail plain unbroken ih =>
    rw [List.cons_append, skipRegex_cons plain, if_neg unbroken]
    exact ih closed
  | case6 inClass tail unclassed plain unbroken =>
    rw [List.cons_append, skipRegex_cons plain, if_neg unbroken, if_neg unclassed, if_pos rfl]
    exact Option.some_ne_none _
  | case7 inClass b tail plain unbroken unclassed notSlash ih =>
    rw [List.cons_append, skipRegex_cons plain, if_neg unbroken, if_neg unclassed, if_neg notSlash]
    exact ih closed

theorem tame_of_cut (kept : other <+: text) : Tame text other := by
  obtain ⟨more, rfl⟩ := kept
  intro inClass unclosed
  by_contra closed
  exact skipRegex_append closed more unclosed

private theorem stop_rightParen : Stop rightParen := ⟨by decide, by decide, by decide⟩

theorem stop_leftParen : Stop leftParen := ⟨by decide, by decide, by decide⟩

private theorem stop_equals : Stop equals := ⟨by decide, by decide, by decide⟩

private theorem Piece.exists_local (stops : Stop stop) {divides : Bool} {piece : Piece}
    {after : Bytes}
    (read : read? divides text = some piece) (behind : piece.rest = after ++ stop :: rest) :
    ∃ before, text = before ++ stop :: rest ∧ ∀ other, Tame rest other →
      read? divides (before ++ stop :: other) = some (piece.withRest (after ++ stop :: other)) := by
  obtain ⟨taken, _, rfl⟩ := read?_append read
  rw [behind, ← List.append_assoc] at read ⊢
  exact ⟨taken ++ after, rfl, fun other tame => read?_local stops read behind tame⟩

/-- A block or a template in parentheses is closed alike before every tame text behind them. -/
private theorem exists_local_inner {frame : Frame} {taken : Bytes}
    (closed : Scans [frame] inside [] (taken ++ rightParen :: rest)) :
    ∃ code, inside = code ++ rightParen :: rest ∧ ∀ other, Tame rest other →
      Scans [frame] (code ++ rightParen :: other) [] (taken ++ rightParen :: other) := by
  obtain ⟨code, closer, _, rfl, again⟩ := closed.closer (List.cons_ne_nil _ _)
  refine ⟨code ++ closer :: taken, by simp, fun other tame => ?_⟩
  simpa using again _ (tame.append stop_rightParen taken)

/-- The code up to a closing parenthesis is read alike before every tame text. -/
theorem Enclosed.exists_local {history : History} (enclosed : Enclosed history text rest) :
    ∃ taken, text = taken ++ rightParen :: rest ∧
      ∀ other, Tame rest other → Enclosed history (taken ++ rightParen :: other) other := by
  induction enclosed with
  | @close history text rest read last =>
    obtain rfl := Piece.eq_of_read?_mark read
    exact ⟨[], rfl, fun other _ => .close (Piece.read?_mark rfl _ _) last⟩
  | block read closed onward ih =>
    obtain ⟨taken, rfl, again⟩ := ih
    obtain ⟨code, rfl, scans⟩ := exists_local_inner closed
    obtain ⟨before, rfl, reads⟩ := Piece.exists_local stop_rightParen read rfl
    exact ⟨before, rfl, fun other tame =>
      .block (reads other tame) (scans other tame) (again other tame)⟩
  | template read closed onward ih =>
    obtain ⟨taken, rfl, again⟩ := ih
    obtain ⟨code, rfl, scans⟩ := exists_local_inner closed
    obtain ⟨before, rfl, reads⟩ := Piece.exists_local stop_rightParen read rfl
    exact ⟨before, rfl, fun other tame =>
      .template (reads other tame) (scans other tame) (again other tame)⟩
  | @piece history text rest piece read noTemplate noBlock inner onward ih =>
    obtain ⟨taken, same, again⟩ := ih
    obtain ⟨before, rfl, reads⟩ := Piece.exists_local stop_rightParen read same
    refine ⟨before, rfl, fun other tame => .piece (reads other tame) ?_ ?_ ?_ ?_⟩
    · rintro _ replaced
      cases piece <;> cases replaced
      exact noTemplate _ rfl
    · rintro _ replaced
      cases piece <;> cases replaced
      exact noBlock _ rfl
    · rintro _ replaced
      cases piece <;> cases replaced
      exact inner _ rfl
    · rw [Piece.rest_withRest]
      have onward := again other tame
      cases piece <;> exact onward

private theorem localTo_enclosed (history : History) : LocalTo rightParen (Enclosed history) := by
  intro text rest enclosed
  obtain ⟨taken, rfl, again⟩ := enclosed.exists_local
  exact ⟨taken, rfl, fun other kept => again other (tame_of_cut kept)⟩

private theorem local_starred : Local Starred := by
  intro text rest starred
  cases starred with
  | plain => exact ⟨[], rfl, fun other _ => .plain other⟩
  | star gap =>
    obtain ⟨taken, rfl, again⟩ := local_gaps gap
    exact ⟨star :: taken, rfl, fun other kept => .star (again other kept)⟩

/-- The list of parameters behind the keyword of a function, the keyword included. -/
private def keywordTo : Bytes → Bytes → Prop := fun text list =>
  ∃ behind, Word.split text = (utf8 "function", behind) ∧
    Relation.Comp Gaps (Relation.Comp Starred fun generator list =>
      ∃ name called, Word.split generator = (name, called) ∧ Gaps called (leftParen :: list))
      behind list

private theorem localTo_keyword : LocalTo leftParen keywordTo := by
  refine LocalTo.word stop_leftParen (local_gaps.compTo (local_starred.compTo ?_)) _
  rintro text list ⟨name, called, word, next⟩
  obtain ⟨taken, same, again⟩ :=
    (localTo_gaps leftParen).word stop_leftParen name ⟨called, word, next⟩
  exact ⟨taken, same, fun other kept => ⟨name, again other kept⟩⟩

/-- The head of a function is read alike where its body is cut short. -/
theorem localTo_functionHead : LocalTo leftBrace FunctionHead := by
  intro text rest head
  have ends (history : History) : LocalTo leftBrace (Relation.Comp (Enclosed history)
      fun past rest => Gaps past (leftBrace :: rest)) :=
    (localTo_enclosed history).local.compTo (localTo_gaps leftBrace)
  have behindArrow : LocalTo leftBrace (Relation.Comp (fun text behind => text = greater :: behind)
      fun behind rest => Gaps behind (leftBrace :: rest)) :=
    (localTo_cons greater).local.compTo (localTo_gaps leftBrace)
  cases head with
  | keyword keyword gap star word next parameters body =>
    obtain ⟨taken, rfl, again⟩ := (localTo_keyword.local.compTo (ends _))
      ⟨_, ⟨_, keyword, _, gap, _, star, _, _, word, next⟩, _, parameters, body⟩
    refine ⟨taken, rfl, fun other kept => ?_⟩
    obtain ⟨_, ⟨_, keyword, _, gap, _, star, _, _, word, next⟩, _, parameters, body⟩ :=
      again other kept
    exact .keyword keyword gap star word next parameters body
  | arrow parameters next body =>
    cases parameters with
    | list enclosed =>
      obtain ⟨taken, same, again⟩ := ((localTo_cons leftParen).local.comp
        (localTo_enclosed _).local).compTo ((localTo_gaps equals).local.compTo behindArrow)
          ⟨_, ⟨_, rfl, enclosed⟩, _, next, _, rfl, body⟩
      refine ⟨taken, same, fun other kept => ?_⟩
      obtain ⟨_, ⟨_, whole, enclosed⟩, _, next, _, rfl, body⟩ := again other kept
      rw [whole]
      exact .arrow (.list enclosed) next body
    | name word start different =>
      obtain ⟨taken, same, again⟩ := ((localTo_gaps equals).word stop_equals _).local.compTo
        behindArrow ⟨_, ⟨_, word, next⟩, _, rfl, body⟩
      refine ⟨taken, same, fun other kept => ?_⟩
      obtain ⟨_, ⟨_, word, next⟩, _, rfl, body⟩ := again other kept
      exact .arrow (.name word start different) next body

end Unbundle.Script
