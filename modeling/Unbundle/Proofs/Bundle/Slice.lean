import Unbundle.Proofs.Bundle.Grammar
import Unbundle.Proofs.Bundle.Placement
import Unbundle.Proofs.Script.Slice

/-!
The call of a module without the bundle around it. Main statement: scanning the call alone finds the
same module in it.
-/

namespace Unbundle.CallSite

open Script Ascii

variable {text rest : Bytes}

private theorem local_readPath (path : Bytes) :
    Local fun text rest => readPath text = .ok (path, rest) := by
  intro text rest read
  obtain ⟨written, spells, canonical⟩ := readPath_eq_ok.mp read
  obtain ⟨taken, same, again⟩ :=
    (local_gaps.comp (local_quoted? written)) ⟨_, gaps_skipGaps text, spells⟩
  refine ⟨taken, same, fun other kept => readPath_eq_ok.mpr ⟨written, ?_, canonical⟩⟩
  obtain ⟨start, gap, spells⟩ := again other kept
  rwa [gap.skipGaps_eq]

private theorem local_nextArgument (missing : Defect) :
    Local fun text rest => nextArgument missing text = .ok rest := by
  intro text rest read
  obtain ⟨behind, gap, next⟩ := nextArgument_eq_ok.mp read
  obtain ⟨taken, same, again⟩ := ((localTo_gaps comma).local.comp local_gaps) ⟨behind, gap, next⟩
  exact ⟨taken, same, fun other kept => nextArgument_eq_ok.mpr (again other kept)⟩

private theorem local_readList (elements : List Bytes) :
    Local fun text rest => readList text = .ok (elements, rest) := by
  induction elements with
  | nil =>
    intro text rest read
    rcases readList_eq_ok.mp read with ⟨_, rfl⟩ | ⟨_, _, _, impossible, _⟩
    · exact ⟨[rightBracket], rfl, fun other _ => readList_eq_ok.mpr (.inl ⟨rfl, rfl⟩)⟩
    · cases impossible
  | cons element others ih =>
    intro text rest read
    rcases readList_eq_ok.mp read with ⟨impossible, _⟩ | ⟨_, _, after, same, literal, ends⟩
    · cases impossible
    cases same
    rcases ends with ⟨rfl, gap⟩ | ⟨behind, next, gap, start, onward⟩
    · obtain ⟨taken, same, again⟩ :=
        ((local_quoted? element).comp (localTo_gaps rightBracket).local) ⟨after, literal, gap⟩
      refine ⟨taken, same, fun other kept => ?_⟩
      obtain ⟨after, literal, gap⟩ := again other kept
      exact readList_eq_ok.mpr (.inr ⟨element, [], after, rfl, literal, .inl ⟨rfl, gap⟩⟩)
    · obtain ⟨taken, same, again⟩ :=
        (((local_quoted? element).comp (localTo_gaps comma).local).comp (local_gaps.comp ih))
          ⟨behind, ⟨after, literal, gap⟩, next, start, onward⟩
      refine ⟨taken, same, fun other kept => ?_⟩
      obtain ⟨behind, ⟨after, literal, gap⟩, next, start, onward⟩ := again other kept
      exact readList_eq_ok.mpr
        (.inr ⟨element, others, after, rfl, literal, .inr ⟨behind, next, gap, start, onward⟩⟩)

private theorem local_readDependencies (listed : List Bytes) :
    Local fun text rest => readDependencies text = .ok (listed, rest) := by
  intro text rest read
  cases opened : expect? leftBracket text with
  | none =>
    rw [readDependencies, opened] at read
    cases read
    refine ⟨[], rfl, fun other kept => ?_⟩
    have unopened : expect? leftBracket other = none := by
      cases found : expect? leftBracket other with
      | none => rfl
      | some inside =>
        obtain ⟨more, rfl⟩ := kept
        rw [expect?_eq_some found] at opened
        cases opened
    change readDependencies other = .ok ([], other)
    rw [readDependencies, unopened]
  | some inside =>
    rw [readDependencies, opened] at read
    obtain ⟨⟨elements, after⟩, list, read⟩ := bind_eq_ok.mp read
    obtain ⟨factory, next, read⟩ := bind_eq_ok.mp read
    cases read
    obtain ⟨taken, same, again⟩ := (((localTo_cons leftBracket).local.comp local_gaps).comp
      ((local_readList listed).comp (local_nextArgument .noFactoryAfterDependencies)))
        ⟨_, ⟨inside, expect?_eq_some opened, gaps_skipGaps inside⟩, after, list, next⟩
    refine ⟨taken, same, fun other kept => ?_⟩
    obtain ⟨_, ⟨inside, whole, gap⟩, after, list, next⟩ := again other kept
    rw [whole, readDependencies, expect?, if_pos rfl]
    exact bind_eq_ok.mpr ⟨_, gap.skipGaps_eq.symm ▸ list, bind_eq_ok.mpr ⟨_, next, rfl⟩⟩

theorem closeCall_slice (text : Bytes) :
    ∃ taken, text = taken ++ closeCall text ∧ closeCall taken = [] := by
  rw [closeCall]
  cases closed : expect? rightParen (skipGaps text) with
  | none => exact ⟨[], rfl, by rw [closeCall, skipGaps_nil]; rfl⟩
  | some rest =>
    obtain ⟨taken, same, again⟩ := localTo_gaps rightParen (expect?_gaps.mp closed)
    refine ⟨taken ++ [rightParen], by simpa using same, ?_⟩
    rw [closeCall, expect?_gaps.mpr (again [] List.nil_prefix)]
    rfl

private theorem readCompiled_slice (text : Bytes) :
    ∃ taken, text = taken ++ (readCompiled text).2 ∧
      readCompiled taken = ((readCompiled text).1, []) := by
  have whole (empty : (readCompiled text).2 = []) : ∃ taken,
      text = taken ++ (readCompiled text).2 ∧ readCompiled taken = ((readCompiled text).1, []) :=
    ⟨text, by rw [empty, List.append_nil], Prod.ext rfl empty⟩
  match text, whole with
  | [], whole | [_], whole | [_, _], whole | [_, _, _], whole => exact whole rfl
  | a :: b :: c :: d :: bytes, whole =>
    have unfolded (bytes : Bytes) : readCompiled (a :: b :: c :: d :: bytes) =
        if bytes.length < Word32.ofBytes a b c d then (⟨.bytecode, bytes, true⟩, [])
        else (⟨.bytecode, bytes.take (Word32.ofBytes a b c d), false⟩,
          closeCall (bytes.drop (Word32.ofBytes a b c d))) := rfl
    simp only [unfolded] at whole ⊢
    by_cases short : bytes.length < Word32.ofBytes a b c d
    · rw [if_pos short] at whole ⊢
      exact whole rfl
    · obtain ⟨taken, same, closed⟩ := closeCall_slice (bytes.drop (Word32.ofBytes a b c d))
      generalize Word32.ofBytes a b c d = length at short same closed unfolded ⊢
      have enough : (bytes.take length).length = length := List.length_take_of_le (by omega)
      rw [if_neg short]
      refine ⟨a :: b :: c :: d :: (bytes.take length ++ taken), ?_, ?_⟩
      · simp [← same]
      · have room : ¬(bytes.take length ++ taken).length < length := by
          rw [List.length_append]; omega
        rw [unfolded, if_neg room, List.take_left' enough, List.drop_left' enough, closed]

private theorem readSource_slice (text : Bytes) :
    ∃ taken, text = taken ++ (readSource text).2 ∧
      readSource taken = ((readSource text).1, []) := by
  cases closed : closeFrame .start [] text with
  | none =>
    have cut : readSource text = (⟨.source, text, true⟩, []) := by rw [readSource, closed]
    rw [cut]
    exact ⟨text, (List.append_nil _).symm, cut⟩
  | some after =>
    obtain ⟨code, closer, _, rfl, again⟩ := closeFrame_local closed
    obtain ⟨taken, same, ends⟩ := closeCall_slice after
    have kept : taken <+: after := ⟨_, same.symm⟩
    have length (behind : Bytes) :
        (code ++ closer :: behind).length - behind.length - 1 = code.length := by
      rw [List.length_append, List.length_cons]
      omega
    have read {behind : Bytes} (closed : closeFrame .start [] (code ++ closer :: behind) = some behind) :
        readSource (code ++ closer :: behind) = (⟨.source, code, false⟩, closeCall behind) := by
      rw [readSource, closed]
      dsimp only
      rw [length, List.take_left]
    refine ⟨code ++ closer :: taken, ?_, ?_⟩
    · rw [read closed, List.append_assoc, List.cons_append, ← same]
    · rw [read (again taken (tame_of_cut kept)), read closed, ends]

private theorem readFactory_slice {payload : Payload} {past : Bytes}
    (read : readFactory text = .ok (payload, past)) :
    ∃ taken, text = taken ++ past ∧ readFactory taken = .ok (payload, []) := by
  rw [readFactory] at read
  cases compiled : expect? nul text with
  | some bytes =>
    rw [compiled] at read
    obtain ⟨taken, same, again⟩ := readCompiled_slice bytes
    rw [Except.ok.inj read] at same again
    rw [expect?_eq_some compiled, same]
    refine ⟨nul :: taken, rfl, ?_⟩
    rw [readFactory, expect?, if_pos rfl]
    exact congrArg Except.ok again
  | none =>
    rw [compiled] at read
    cases head : Script.Factory.read? text with
    | none =>
      rw [head] at read
      cases read
    | some source =>
      rw [head] at read
      obtain ⟨taken, same, again⟩ := readSource_slice source
      rw [Except.ok.inj read] at same again
      obtain ⟨front, rfl, heads⟩ := localTo_functionHead (functionHead_iff.mpr head)
      have function := functionHead_iff.mp (heads taken ⟨past, same.symm⟩)
      have uncompiled : expect? nul (front ++ leftBrace :: taken) = none := by
        cases front with
        | nil => rfl
        | cons b front => simpa [expect?] using compiled
      refine ⟨front ++ leftBrace :: taken, by simp [same], ?_⟩
      rw [readFactory, uncompiled, function]
      exact congrArg Except.ok again

theorem read_slice {record : ScriptModule} {past : Bytes} (found : read text = .ok (record, past)) :
    ∃ taken, text = taken ++ past ∧ read taken = .ok (record, []) := by
  obtain ⟨path, afterPath, argument, listed, factory, payload, named, next, list, last, rfl⟩ :=
    read_ok found
  obtain ⟨front, rfl, again⟩ := (((local_readPath path).comp
    (local_nextArgument .noFactoryAfterPath)).comp (local_readDependencies listed))
      ⟨_, ⟨_, named, next⟩, list⟩
  obtain ⟨taken, rfl, alone⟩ := readFactory_slice last
  obtain ⟨_, ⟨_, named, next⟩, list⟩ := again taken (List.prefix_append taken past)
  refine ⟨front ++ taken, (List.append_assoc ..).symm, ?_⟩
  exact bind_eq_ok.mpr ⟨_, named, bind_eq_ok.mpr ⟨_, next, bind_eq_ok.mpr ⟨_, list,
    bind_eq_ok.mpr ⟨_, alone, rfl⟩⟩⟩⟩

end Unbundle.CallSite

namespace Unbundle.Bundle

open Script Ascii

variable {names : List Bytes} {text : Bytes} {start finish : Nat} {record : ScriptModule}

theorem exists_call_of_mem_scan (member : .site start finish record ∈ scan names text) :
    ∃ before slice past, text = before ++ slice ++ past ∧ start = before.length ∧
      finish = (before ++ slice).length ∧
      ∃ name ∈ names, name ≠ [] ∧ ∃ rest call, Word.split slice = (name, rest) ∧
        Gaps rest (leftParen :: call) ∧ CallSite.read call = .ok (record, []) := by
  obtain ⟨_, afterDot, history, name, rest, walks, word, found⟩ := Visitor.finds_of_mem_walk member
  obtain ⟨before, rfl⟩ := walks.suffix
  dsimp only at found
  rcases visit_cases (before ++ (name ++ rest)).length names afterDot name rest with nothing |
    ⟨named, inside, opened, ⟨site, past, read, same⟩ | ⟨refusal, _, same⟩⟩
  · rw [nothing] at found
    cases found
  · rw [same] at found
    cases List.mem_singleton.mp found
    obtain ⟨split, nonempty⟩ := Piece.read?_eq_word.mp word
    obtain ⟨call, rfl, alone⟩ := CallSite.read_slice read
    obtain ⟨taken, whole, again⟩ := (localTo_gaps leftParen).word stop_leftParen name
      ⟨rest, split, expect?_gaps.mp opened⟩
    refine ⟨before, taken ++ leftParen :: call, past, by simp [whole], by simp, ?_, name, named,
      nonempty, ?_⟩
    · simp [whole]
      omega
    · obtain ⟨behind, split, gaps⟩ := again call (List.prefix_append call past)
      exact ⟨behind, call, split, gaps, alone⟩
  · rw [same] at found
    cases List.mem_singleton.mp found

/-- Scanning the bytes of a call alone finds one module, the same that was found in the bundle, and
its call spans them all. -/
theorem scan_slice (member : .site start finish record ∈ scan names text) :
    let slice := (text.take finish).drop start
    scan names slice = [.site 0 slice.length record] := by
  obtain ⟨before, slice, past, rfl, rfl, rfl, name, named, nonempty, rest, call, split, gaps, read⟩ :=
    exists_call_of_mem_scan member
  rw [List.take_left, List.drop_left]
  intro slice
  have word : Piece.read? ({} : History).divides slice = some (.word name rest) :=
    Piece.read?_eq_word.mpr ⟨split, nonempty⟩
  have whole := Word.split_append slice
  rw [split] at whole
  rw [scan, Visitor.run, Visitor.walk_word _ word, visit_name _ named (expect?_gaps.mpr gaps), read]
  dsimp only
  rw [Visitor.walk_nil, ← List.length_append, whole, Nat.sub_self, List.length_nil, Nat.sub_zero]
  rfl

/-- A call behind which a slash divides. -/
theorem scan_slice_sample :
    let text := utf8 "x=1;define('m',(a)=>\x7breturn /\x7d/\x7d)/2/g"
    let slice := (text.take 33).drop 4
    ∃ record, .site 4 33 record ∈ scan [utf8 "define"] text ∧
      scan [utf8 "define"] slice = [.site 0 slice.length record] := by
  intro text slice
  have placed : (scan [utf8 "define"] text).any
      (fun item => item.module?.isSome && item.start = 4 && item.finish = 33) = true := by
    decide +kernel
  obtain ⟨item, member, placed⟩ := List.any_eq_true.mp placed
  simp only [Bool.and_eq_true, decide_eq_true_eq] at placed
  obtain ⟨⟨understood, start⟩, finish⟩ := placed
  cases item with
  | unrecognized => cases understood
  | site first last record =>
    obtain rfl : first = 4 := start
    obtain rfl : last = 33 := finish
    exact ⟨record, member, scan_slice member⟩

end Unbundle.Bundle
