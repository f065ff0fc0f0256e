import Unbundle.Proofs.Bundle.Modules
import Unbundle.Proofs.Bundle.Registration

/-!
Splitting a bundle that was written call by call. Main statement: the modules come back in order
and complete, and every other call is reported.
-/

namespace Unbundle.Registration

open Script Ascii Unbundle.Bundle

variable {names : List Bytes}

private theorem walk_lineEnd (visitor : Visitor Item) (afterDot : Bool) (history : History)
    (rest : Bytes) : ∃ history', visitor.walk afterDot history (utf8 ";\n" ++ rest) =
      visitor.walk false history' rest := by
  have semicolon : Piece.read? history.divides (utf8 ";\n" ++ rest) =
      some (.mark 0x3B (newline :: rest)) :=
    Piece.read?_mark rfl _ _
  have lineBreak (divides : Bool) : Piece.read? divides (newline :: rest) = some (.gap rest) := rfl
  exact ⟨history.mark 0x3B, (visitor.walk_mark semicolon).trans (visitor.walk_gap (lineBreak _))⟩

/-- A word is no call without an opening parenthesis behind it. -/
private theorem visit_closed (size : Nat) (word rest : Bytes) :
    (visitor size names).visit false word (rightParen :: rest) = {} := by
  have gaps : skipGaps (rightParen :: rest) = rightParen :: rest :=
    skipGaps_cons rfl rest
  simp +decide [visitor, gaps, expect?]

/-- The walk goes on behind a call that is understood, and behind the name of another one. -/
theorem walk_call {name : Bytes} (member : name ∈ names) (word : Word.IsWord name) (size : Nat)
    (history : History) (inside : Bytes) :
    (visitor size names).walk false history (name ++ leftParen :: inside) =
      match CallSite.read inside with
      | .ok (record, past) =>
        .site (size - (name.length + (leftParen :: inside).length)) (size - past.length) record ::
          (visitor size names).walk false history.operand past
      | .error refusal =>
        .unrecognized (size - (name.length + (leftParen :: inside).length))
            (size - refusal.rest.length) refusal.defect ::
          (visitor size names).walk false (history.word name) (leftParen :: inside) := by
  have opened : expect? leftParen (skipGaps (leftParen :: inside)) = some inside := by
    rw [skipGaps_cons rfl]
    rfl
  rw [Visitor.walk_word _ (word.read?_cons rfl history.divides inside), visit_name size member opened]
  cases CallSite.read inside <;> rfl

theorem walk_render {call : Call} (word : Word.IsWord call.name) (valid : call.Valid names)
    (size : Nat) (history : History) (rest : Bytes) :
    ∃ items history', (visitor size names).walk false history (call.render ++ rest) =
        items ++ (visitor size names).walk false history' rest ∧
      items.filterMap Item.module? = call.module?.toList ∧
      items.filterMap Item.defect? = call.defect?.toList := by
  cases call with
  | register name path dependencies code =>
    obtain ⟨member, named, balanced⟩ := valid
    obtain ⟨canonical, found⟩ := Option.ne_none_iff_exists'.mp named
    have understood := read_register found dependencies balanced rest
    obtain ⟨history', onward⟩ := walk_lineEnd (visitor size names) false history.operand rest
    have text : (Call.register name path dependencies code).render ++ rest = name ++ leftParen ::
        (quote path ++ utf8 ", " ++ renderDependencies dependencies ++ code.render ++
          utf8 ");\n" ++ rest) := by
      simp [Call.render]
    rw [text, walk_call member word, understood]
    refine ⟨[_], history', congrArg _ onward, ?_, ?_⟩
    · simp [Item.module?, Call.module?, found]
    · simp [Item.defect?, Call.defect?]
  | other name argument =>
    obtain ⟨member, isName⟩ := valid
    have refused := read_variable isName (utf8 ");\n" ++ rest)
    have text : (Call.other name argument).render ++ rest =
        name ++ leftParen :: (argument ++ rightParen :: (utf8 ";\n" ++ rest)) := by
      rw [Call.render, show utf8 ");\n" = rightParen :: utf8 ";\n" from rfl]
      simp
    -- The walk resumes behind the name, so it meets the variable and both parentheses again.
    have opened (divides : Bool) (tail : Bytes) :
        Piece.read? divides (leftParen :: tail) = some (.mark leftParen tail) :=
      Piece.read?_mark rfl _ _
    have closed (divides : Bool) (tail : Bytes) :
        Piece.read? divides (rightParen :: tail) = some (.mark rightParen tail) :=
      Piece.read?_mark rfl _ _
    have variableWord (history : History) (tail : Bytes) :=
      isName.isWord.read?_cons (b := rightParen) rfl history.divides tail
    obtain ⟨history', onward⟩ := walk_lineEnd (visitor size names) (decide (rightParen = dot))
      (((history.word name).mark leftParen).word argument |>.mark rightParen) rest
    rw [text, walk_call member word,
      show argument ++ rightParen :: (utf8 ";\n" ++ rest) = argument ++ (utf8 ");\n" ++ rest) from rfl,
      refused]
    refine ⟨_ :: [], history', congrArg (_ :: ·) ?_, rfl, rfl⟩
    calc (visitor size names).walk false (history.word name)
          (leftParen :: (argument ++ (utf8 ");\n" ++ rest)))
      _ = (visitor size names).walk false ((history.word name).mark leftParen)
            (argument ++ rightParen :: (utf8 ";\n" ++ rest)) := Visitor.walk_mark _ (opened _ _)
      _ = (visitor size names).walk false (((history.word name).mark leftParen).word argument)
            (rightParen :: (utf8 ";\n" ++ rest)) := by
          rw [Visitor.walk_word _ (variableWord _ _), visit_closed]
          rfl
      _ = _ := (Visitor.walk_mark _ (closed _ _)).trans onward

/-- Walking over written calls finds the modules, and the reasons why the other calls register
nothing. -/
theorem walk_calls (size : Nat) {calls : List Call} (words : ∀ call ∈ calls, Word.IsWord call.name)
    (valid : ∀ call ∈ calls, call.Valid names) (history : History) (rest : Bytes) :
    ∃ items history', (visitor size names).walk false history (render calls ++ rest) =
        items ++ (visitor size names).walk false history' rest ∧
      items.filterMap Item.module? = calls.filterMap Call.module? ∧
      items.filterMap Item.defect? = calls.filterMap Call.defect? := by
  induction calls generalizing history with
  | nil => exact ⟨[], history, rfl, rfl, rfl⟩
  | cons call calls ih =>
    obtain ⟨word, words⟩ := List.forall_mem_cons.mp words
    obtain ⟨first, valid⟩ := List.forall_mem_cons.mp valid
    obtain ⟨items, history', walked, modules, defects⟩ :=
      walk_render word first size history (render calls ++ rest)
    obtain ⟨later, last, onward, restModules, restDefects⟩ := ih words valid history'
    refine ⟨items ++ later, last, ?_, ?_, ?_⟩
    · rw [render, List.flatMap_cons, ← render, List.append_assoc, walked, onward, List.append_assoc]
    · rw [List.filterMap_append, modules, restModules]
      cases found : call.module? <;> simp [found]
    · rw [List.filterMap_append, defects, restDefects]
      cases found : call.defect? <;> simp [found]

/-- Splitting a written bundle gives back the registered modules in order, each one complete, and
skips exactly the calls that register nothing. -/
theorem split_render (names : List Bytes) (words : ∀ name ∈ names, IsName name) (calls : List Call)
    (valid : ∀ call ∈ calls, call.Valid names) :
    (split names (render calls)).modules = calls.filterMap Call.module? ∧
      (split names (render calls)).skipped.filterMap Item.defect? =
        calls.filterMap Call.defect? := by
  obtain ⟨items, history', walked, modules, defects⟩ := walk_calls (render calls).length
    (fun call member => (words call.name (Call.name_mem (valid call member))).isWord) valid {} []
  rw [List.append_nil, Visitor.walk_nil, List.append_nil] at walked
  rw [split, scan, Visitor.run, walked]
  refine ⟨modules, ?_⟩
  rw [← defects, List.filterMap_filter]
  congr 1
  funext item
  cases item <;> rfl

/-- A source with braces in a literal and in a regular expression, a call that registers nothing,
and compiled bytes that would close the call if they were code. -/
def sampleCalls : List Call :=
  [.register (utf8 "define") (utf8 "pages\\./a.js") (some [utf8 "./b", utf8 "say \"hi\""])
      (.source (utf8 "return require('./c') + '\x7d' + /[\x7d]/.source;")),
    .other (utf8 "define") (utf8 "later"),
    .register (utf8 "define") (utf8 "b") none (.compiled [nul, rightBrace, rightParen, newline])]

theorem split_render_sampleCalls :
    (∀ name ∈ [utf8 "define"], IsName name) ∧
      (∀ call ∈ sampleCalls, call.Valid [utf8 "define"]) ∧
      (split [utf8 "define"] (render sampleCalls)).modules.map ScriptModule.path =
        [utf8 "pages/a.js", utf8 "b"] ∧
      (split [utf8 "define"] (render sampleCalls)).skipped.filterMap Item.defect? =
        [.pathNotLiteral] := by
  have words : ∀ name ∈ [utf8 "define"], IsName name := by decide +kernel
  have valid : ∀ call ∈ sampleCalls, call.Valid [utf8 "define"] := by decide +kernel
  obtain ⟨modules, skipped⟩ := split_render [utf8 "define"] words sampleCalls valid
  refine ⟨words, valid, ?_, ?_⟩
  · rw [modules]
    rfl
  · rw [skipped]
    rfl

end Unbundle.Registration
