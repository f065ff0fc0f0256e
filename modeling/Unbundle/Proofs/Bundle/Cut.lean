import Unbundle.Proofs.Bundle.Splitting
import Unbundle.Proofs.Script.Cut

/-!
Splitting a written bundle that is cut off inside its last source. Main statement: the earlier
modules come back, and the last one is found truncated unless the cut lies in a regular expression
whose slash then stands for itself.
-/

namespace Unbundle.Registration

open Script Ascii Unbundle.Bundle

variable {names : List Bytes} {calls : List Call} {name written path : Bytes}

theorem modules_open (words : ∀ call ∈ calls, Word.IsWord call.name)
    (valid : ∀ call ∈ calls, call.Valid names) (member : name ∈ names) (word : Word.IsWord name)
    (canonical : Path.canonical? written = some path) (dependencies : Option (List Bytes))
    (source : Bytes) :
    ∃ more, (split names (render calls ++ (name ++ leftParen :: (quote written ++ utf8 ", " ++
        renderDependencies dependencies ++ (utf8 "function()" ++ leftBrace :: source))))).modules =
      calls.filterMap Call.module? ++
        CallSite.toModule path (dependencies.getD []) (CallSite.readSource source).1 :: more ∧
      ((CallSite.readSource source).2 = [] → more = []) := by
  generalize opened : quote written ++ utf8 ", " ++ renderDependencies dependencies ++
    (utf8 "function()" ++ leftBrace :: source) = inside
  have understood := read_source canonical dependencies source
  rw [opened] at understood
  generalize size : (render calls ++ (name ++ leftParen :: inside)).length = length
  obtain ⟨items, history, walked, modules, _⟩ :=
    walk_calls length words valid {} (name ++ leftParen :: inside)
  rw [walk_call member word, understood] at walked
  rw [split, scan, Visitor.run, size, walked, List.filterMap_append, modules]
  refine ⟨_, rfl, fun ends => ?_⟩
  rw [ends, Visitor.walk_nil]
  rfl

/-- A bundle that is cut inside its last source gives back the earlier modules, and behind them the
last one truncated to what is left of its source: exactly where no slash is misread. -/
theorem split_cut (names : List Bytes) (calls : List Call) (name written : Bytes)
    (dependencies : Option (List Bytes)) (kept lost text : Bytes) {last : Call}
    (registers : last = .register name written dependencies (.source (kept ++ lost)))
    (words : ∀ call ∈ calls ++ [last], Word.IsWord call.name)
    (valid : ∀ call ∈ calls ++ [last], call.Valid names)
    (cut : text ++ (lost ++ utf8 "\x7d);\n") = render (calls ++ [last])) :
    ∃ record, (Call.register name written dependencies (.source kept)).module? = some record ∧
      ((split names text).modules =
          calls.filterMap Call.module? ++ [{ record with truncated := true }] ↔
        ¬Misread [.start] kept (lost ++ [rightBrace])) ∧
      calls.filterMap Call.module? <+: (split names text).modules := by
  subst registers
  obtain ⟨member, named, balanced⟩ := valid _ (List.mem_append_right _ (List.mem_singleton_self _))
  obtain ⟨path, canonical⟩ := Option.ne_none_iff_exists'.mp named
  have word := words _ (List.mem_append_right _ (List.mem_singleton_self _))
  have balanced := closeFrame_of_matchingBrace? balanced
  rw [List.append_assoc] at balanced
  have whole : text = render calls ++ (name ++ leftParen :: (quote written ++ utf8 ", " ++
      renderDependencies dependencies ++ (utf8 "function()" ++ leftBrace :: kept))) := by
    apply List.append_cancel_right (cut.trans _)
    rw [show utf8 "\x7d);\n" = rightBrace :: utf8 ");\n" from rfl]
    simp [render, Call.render, Code.render]
  obtain ⟨more, modules, ending⟩ := modules_open
    (fun call first => words call (List.mem_append_left _ first))
    (fun call first => valid call (List.mem_append_left _ first)) member word canonical dependencies
    kept
  rw [← whole] at modules
  refine ⟨_, by rw [Call.module?, canonical]; rfl, ?_, ?_⟩
  · rw [← closeFrame_cut balanced (List.append_ne_nil_of_right_ne_nil _ (List.cons_ne_nil _ _)),
      modules]
    cases closed : closeFrame .start [] kept with
    | none =>
      rw [CallSite.readSource, closed] at ending ⊢
      rw [ending rfl]
      exact iff_of_true rfl rfl
    | some after =>
      rw [CallSite.readSource, closed]
      refine iff_of_false (fun same => ?_) (Option.some_ne_none _)
      have last := (List.cons.inj (List.append_cancel_left same)).1
      cases congrArg ScriptModule.truncated last
  · rw [modules]
    exact List.prefix_append _ _

/-- A source with a brace in a literal. -/
def literalCall : Call :=
  .register (utf8 "define") (utf8 "c") (some [utf8 "./d"]) (.source (utf8 "return '\x7d" ++ utf8 "';"))

/-- A bundle that ends inside the literal. -/
def literalCut : Bytes :=
  render sampleCalls ++ utf8 "define(\"c\", [\"./d\"], function()\x7breturn '\x7d"

theorem split_cut_literal :
    (∀ call ∈ sampleCalls ++ [literalCall], Word.IsWord call.name) ∧
      (∀ call ∈ sampleCalls ++ [literalCall], call.Valid [utf8 "define"]) ∧
      literalCut ++ (utf8 "';" ++ utf8 "\x7d);\n") = render (sampleCalls ++ [literalCall]) ∧
      (split [utf8 "define"] literalCut).modules.map (fun record => (record.path, record.truncated)) =
        [(utf8 "pages/a.js", false), (utf8 "b", false), (utf8 "c", true)] := by
  have words : ∀ call ∈ sampleCalls ++ [literalCall], Word.IsWord call.name := by decide +kernel
  have valid : ∀ call ∈ sampleCalls ++ [literalCall], call.Valid [utf8 "define"] := by
    decide +kernel
  have cut : literalCut ++ (utf8 "';" ++ utf8 "\x7d);\n") = render (sampleCalls ++ [literalCall]) := by
    decide +kernel
  have balanced :
      closeFrame .start [] (utf8 "return '\x7d" ++ (utf8 "';" ++ [rightBrace])) = some [] := by
    decide +kernel
  have open_ : closeFrame .start [] (utf8 "return '\x7d") = none := by decide +kernel
  obtain ⟨record, found, modules, _⟩ := split_cut [utf8 "define"] sampleCalls (utf8 "define")
    (utf8 "c") (some [utf8 "./d"]) (utf8 "return '\x7d") (utf8 "';") literalCut rfl words valid cut
  cases found
  rw [modules.mpr ((closeFrame_cut balanced (by decide)).mp open_)]
  exact ⟨words, valid, cut, by decide +kernel⟩

/-- A source with a brace in a regular expression. -/
def regexCall : Call :=
  .register (utf8 "define") (utf8 "m") none (.source (utf8 "x=/\x7d/"))

/-- Inside the regular expression a bundle can end with a module that looks complete. -/
theorem split_cut_regex :
    let text := utf8 "define(\"m\", function()\x7bx=/\x7d"
    (Word.IsWord regexCall.name ∧ regexCall.Valid [utf8 "define"]) ∧
      text ++ (utf8 "/" ++ utf8 "\x7d);\n") = render [regexCall] ∧
      (split [utf8 "define"] text).modules.map (fun record => (record.body, record.truncated)) =
        [(utf8 "x=/", false)] := by
  decide +kernel

end Unbundle.Registration
