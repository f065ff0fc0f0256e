import Unbundle.Proofs.Bundle.Modules
import Unbundle.Proofs.Bundle.Places

/-!
Where the calls of a bundle stand. Main statement: the calls lie inside the bundle, in order and
each at one of the names, no call lies inside one that was understood, and each body is a slice of
its call, one that was cut off being the end of the bundle.
-/

namespace Unbundle

open Script Ascii

namespace CallSite

/-! ### Refused calls -/

private theorem rest_of_readPath {text : Bytes} {refusal : Refusal}
    (refused : readPath text = .error refusal) : refusal.rest <:+ text := by
  have start := skipGaps_suffix text
  rw [readPath] at refused
  split at refused
  · cases refused
    exact List.nil_suffix
  · next b rest begin =>
    rw [begin] at start
    split at refused
    · split at refused
      · cases refused
        exact List.nil_suffix
      · next written after literal =>
        split at refused
        · cases refused
          exact (Literal.read?_suffix literal).trans (suffix_of_cons start)
        · cases refused
    · cases refused
      exact start

private theorem rest_of_nextArgument {missing : Defect} {text : Bytes} {refusal : Refusal}
    (refused : nextArgument missing text = .error refusal) : refusal.rest <:+ text := by
  rw [nextArgument] at refused
  split at refused
  · cases refused
  · cases refused
    exact skipGaps_suffix text

private theorem rest_of_readList {text : Bytes} {refusal : Refusal}
    (refused : readList text = .error refusal) : refusal.rest <:+ text := by
  fun_induction readList text with
  | case1 | case3 | case4 =>
    cases refused
    exact List.nil_suffix
  | case2 | case6 => cases refused
  | case5 b rest opens quote element after literal tail next ih =>
    have separated : comma :: tail <:+ after := next ▸ skipGaps_suffix after
    have behind := separated.trans ((Literal.read?_suffix literal).trans (List.suffix_cons b rest))
    exact (ih (map_eq_error.mp refused)).trans ((skipGaps_suffix tail).trans
      (suffix_of_cons behind))
  | case7 b rest opens quote element after literal c tail next noComma noBracket =>
    cases refused
    have unread : c :: tail <:+ after := next ▸ skipGaps_suffix after
    exact unread.trans ((Literal.read?_suffix literal).trans (List.suffix_cons b rest))
  | case8 =>
    cases refused
    exact List.suffix_refl _

private theorem rest_of_readDependencies {text : Bytes} {refusal : Refusal}
    (refused : readDependencies text = .error refusal) : refusal.rest <:+ text := by
  rw [readDependencies] at refused
  split at refused
  · cases refused
  · next inside opened =>
    have first := (skipGaps_suffix inside).trans (expect?_suffix opened)
    rcases bind_eq_error.mp refused with list | ⟨⟨elements, after⟩, list, refused⟩
    · exact (rest_of_readList list).trans first
    · rcases bind_eq_error.mp refused with next | ⟨_, _, impossible⟩
      · exact (rest_of_nextArgument next).trans ((readList_suffix list).trans first)
      · cases impossible

private theorem rest_of_readFactory {text : Bytes} {refusal : Refusal}
    (refused : readFactory text = .error refusal) : refusal.rest <:+ text := by
  rw [readFactory] at refused
  split at refused
  · cases refused
  · split at refused
    · cases refused
      exact List.suffix_refl text
    · cases refused

private theorem rest_of_read {text : Bytes} {refusal : Refusal}
    (refused : read text = .error refusal) :
    refusal.rest <:+ text := by
  rcases bind_eq_error.mp refused with path | ⟨⟨path, afterPath⟩, first, refused⟩
  · exact rest_of_readPath path
  have behind := readPath_suffix first
  rcases bind_eq_error.mp refused with next | ⟨argument, second, refused⟩
  · exact (rest_of_nextArgument next).trans behind
  have behind := (nextArgument_suffix second).trans behind
  rcases bind_eq_error.mp refused with list | ⟨⟨listed, factory⟩, third, refused⟩
  · exact (rest_of_readDependencies list).trans behind
  have behind := (readDependencies_suffix third).trans behind
  rcases bind_eq_error.mp refused with body | ⟨_, _, impossible⟩
  · exact (rest_of_readFactory body).trans behind
  · cases impossible

/-! ### Bodies -/

/-- A body stands in a text before the rest that was left of it, and up to the end of the text if it
was cut off there. -/
def Holds (text body past : Bytes) (truncated : Bool) : Prop :=
  ∃ before after, before ++ body ++ after = text ∧ past <:+ after ∧ (truncated = true → after = [])

private theorem Holds.of_suffix {text inner body past : Bytes} {truncated : Bool}
    (suffix : inner <:+ text)
    (holds : Holds inner body past truncated) : Holds text body past truncated := by
  obtain ⟨taken, rfl⟩ := suffix
  obtain ⟨before, after, rfl, left, cut⟩ := holds
  exact ⟨taken ++ before, after, by simp, left, cut⟩

private theorem holds_readCompiled (text : Bytes) :
    Holds text (readCompiled text).1.body (readCompiled text).2 (readCompiled text).1.truncated := by
  rw [readCompiled]
  split
  · exact ⟨text, [], by simp, List.suffix_refl [], fun _ => rfl⟩
  · next length word =>
    dsimp only
    split
    · exact ⟨text.take 4, [], by simp, List.suffix_refl [], fun _ => rfl⟩
    · exact ⟨text.take 4, (text.drop 4).drop length, by simp, closeCall_suffix _, nofun⟩

private theorem holds_readSource (text : Bytes) :
    Holds text (readSource text).1.body (readSource text).2 (readSource text).1.truncated := by
  rw [readSource]
  split
  · exact ⟨[], [], by simp, List.suffix_refl [], fun _ => rfl⟩
  · next after closed =>
    have last : after <:+ text.drop (text.length - after.length - 1) := by
      refine List.suffix_of_suffix_length_le (closeFrame_suffix closed) (List.drop_suffix _ _) ?_
      have := (closeFrame_suffix closed).length_le
      rw [List.length_drop]
      omega
    exact ⟨[], text.drop (text.length - after.length - 1), by simp,
      (closeCall_suffix after).trans last, nofun⟩

private theorem holds_of_readFactory {text past : Bytes} {payload : Payload}
    (found : readFactory text = .ok (payload, past)) :
    Holds text payload.body past payload.truncated := by
  rw [readFactory] at found
  split at found
  · next bytes compiled =>
    have holds := holds_readCompiled bytes
    rw [Except.ok.inj found] at holds
    exact holds.of_suffix (expect?_suffix compiled)
  · split at found
    · cases found
    · next body source =>
      have holds := holds_readSource body
      rw [Except.ok.inj found] at holds
      exact holds.of_suffix (Factory.read?_suffix source)

private theorem holds_of_read {text past : Bytes} {record : ScriptModule}
    (found : read text = .ok (record, past)) : Holds text record.body past record.truncated := by
  obtain ⟨path, afterPath, argument, listed, factory, payload, first, second, third, fourth, rfl⟩ :=
    read_ok found
  exact (holds_of_readFactory fourth).of_suffix ((readDependencies_suffix third).trans
    ((nextArgument_suffix second).trans (readPath_suffix first)))

end CallSite

namespace Bundle

def Item.start : Item → Nat
  | site start .. | unrecognized start .. => start

/-- One past the last byte. -/
def Item.finish : Item → Nat
  | site _ finish _ | unrecognized _ finish _ => finish

/-- The call lies in the text and begins with a name, and the body of its module lies inside. -/
structure Item.Placed (names : List Bytes) (text : Bytes) (item : Item) : Prop where
  nonempty : item.start < item.finish
  within : item.finish ≤ text.length
  named : ∃ name ∈ names, name <+: text.drop item.start
  body : ∀ record, item.module? = some record → ∃ before after,
    before ++ record.body ++ after = text ∧ item.start ≤ before.length ∧
      before.length + record.body.length ≤ item.finish
  cut : ∀ record, item.module? = some record → record.truncated = true →
    item.finish = text.length ∧ record.body <:+ text

/-- One call begins before another, and lies before it altogether if it was understood. -/
structure Item.Before (first second : Item) : Prop where
  starts : first.start < second.start
  finishes : first.module?.isSome = true → first.finish ≤ second.start

variable {names : List Bytes} {text : Bytes}

private theorem start_of_mem_found {size : Nat} {afterDot : Bool} {word rest : Bytes} {item : Item}
    (found : item ∈ ((visitor size names).visit afterDot word rest).found) :
    item.start = size - (word.length + rest.length) := by
  rcases visit_cases size names afterDot word rest with nothing |
    ⟨_, inside, _, ⟨record, past, _, same⟩ | ⟨refusal, _, same⟩⟩
  · rw [nothing] at found
    cases found
  · rw [same] at found
    rw [List.mem_singleton.mp found, Item.start]
  · rw [same] at found
    rw [List.mem_singleton.mp found, Item.start]

theorem start_of_mem_walk {afterDot : Bool} {history : History} {rest : Bytes} {item : Item}
    (member : item ∈ (visitor text.length names).walk afterDot history rest) :
    text.length - rest.length ≤ item.start := by
  obtain ⟨afterDot, word, after, inside, found⟩ :=
    Visitor.exists_visit _ (List.suffix_refl rest) member
  have := inside.length_le
  rw [start_of_mem_found found]
  rw [List.length_append] at this
  omega

private theorem placed_site {taken word rest call past : Bytes} {record : ScriptModule}
    (named : word ∈ names) (opening : leftParen :: call <:+ rest)
    (read : CallSite.read call = .ok (record, past)) :
    (Item.site taken.length ((taken ++ (word ++ rest)).length - past.length) record).Placed names
      (taken ++ (word ++ rest)) := by
  have short := opening.length_le
  have left := (CallSite.read_suffix read).length_le
  obtain ⟨before, after, whole, behind, cut⟩ := (CallSite.holds_of_read read).of_suffix
    ((suffix_of_cons opening).trans (List.suffix_append word rest))
  have length := congrArg List.length whole
  have kept := behind.length_le
  simp only [List.length_cons, List.length_append] at short length
  refine ⟨?_, Nat.sub_le .., ⟨word, named, ?_⟩, ?_, ?_⟩
  · simp only [Item.start, Item.finish, List.length_append]
    omega
  · rw [Item.start, List.drop_left]
    exact List.prefix_append word rest
  · rintro _ ⟨⟩
    refine ⟨taken ++ before, after, by simp [← whole], ?_, ?_⟩
    · simp [Item.start]
    · simp only [Item.finish, List.length_append]
      omega
  · rintro _ ⟨⟩ flagged
    obtain rfl := cut flagged
    obtain rfl := List.suffix_nil.mp behind
    exact ⟨rfl, taken ++ before, by simp [← whole]⟩

private theorem placed_unrecognized {taken word rest call : Bytes} {refusal : CallSite.Refusal}
    (named : word ∈ names) (opening : leftParen :: call <:+ rest)
    (read : CallSite.read call = .error refusal) :
    (Item.unrecognized taken.length ((taken ++ (word ++ rest)).length - refusal.rest.length)
      refusal.defect).Placed names (taken ++ (word ++ rest)) := by
  have short := opening.length_le
  have left := (CallSite.rest_of_read read).length_le
  simp only [List.length_cons] at short
  refine ⟨?_, Nat.sub_le .., ⟨word, named, ?_⟩, nofun, nofun⟩
  · simp only [Item.start, Item.finish, List.length_append]
    omega
  · rw [Item.start, List.drop_left]
    exact List.prefix_append word rest

private theorem placed_of_mem_found {afterDot : Bool} {word rest : Bytes} {item : Item}
    (inside : word ++ rest <:+ text)
    (found : item ∈ ((visitor text.length names).visit afterDot word rest).found) :
    item.Placed names text := by
  obtain ⟨taken, rfl⟩ := inside
  have start : (taken ++ (word ++ rest)).length - (word.length + rest.length) = taken.length := by
    simp
  rcases visit_cases (taken ++ (word ++ rest)).length names afterDot word rest with nothing |
    ⟨named, call, opened, outcome⟩
  · rw [nothing] at found
    cases found
  have opening : leftParen :: call <:+ rest := by
    rw [← expect?_eq_some opened]
    exact skipGaps_suffix rest
  rw [start] at outcome
  rcases outcome with ⟨record, past, read, same⟩ | ⟨refusal, read, same⟩
  · rw [same] at found
    rw [List.mem_singleton.mp found]
    exact placed_site named opening read
  · rw [same] at found
    rw [List.mem_singleton.mp found]
    exact placed_unrecognized named opening read

theorem placed_of_mem_scan {item : Item} (member : item ∈ scan names text) :
    item.Placed names text := by
  obtain ⟨afterDot, word, rest, inside, found⟩ :=
    Visitor.exists_visit _ (List.suffix_refl text) member
  exact placed_of_mem_found inside found

theorem pairwise_found_append {afterDot : Bool} {word rest : Bytes} {others : List Item}
    (inside : word ++ rest <:+ text) (nonempty : 0 < word.length)
    (later : ∀ other ∈ others, text.length -
      (((visitor text.length names).visit afterDot word rest).past.getD rest).length ≤ other.start)
    (rising : others.Pairwise Item.Before) :
    (((visitor text.length names).visit afterDot word rest).found ++ others).Pairwise
      Item.Before := by
  have room := inside.length_le
  rw [List.length_append] at room
  rcases visit_cases text.length names afterDot word rest with nothing |
    ⟨_, call, opened, ⟨record, past, _, same⟩ | ⟨refusal, _, same⟩⟩
  · rwa [nothing]
  · have left := ((visitor text.length names).suffix (congrArg Visit.past same)).length_le
    rw [same] at later ⊢
    refine List.pairwise_cons.mpr ⟨fun other member => ?_, rising⟩
    have onward : text.length - past.length ≤ other.start := later other member
    exact ⟨by rw [Item.start]; omega, fun _ => onward⟩
  · rw [same] at later ⊢
    refine List.pairwise_cons.mpr ⟨fun other member => ?_, rising⟩
    have onward : text.length - rest.length ≤ other.start := later other member
    exact ⟨by rw [Item.start]; omega, nofun⟩

/-- The calls of a walk come one before another. -/
theorem pairwise_walk {afterDot : Bool} {history : History} {rest : Bytes}
    (inside : rest <:+ text) :
    ((visitor text.length names).walk afterDot history rest).Pairwise Item.Before := by
  fun_induction Visitor.walk (visitor text.length names) afterDot history rest with
  | case1 => exact .nil
  | case2 => exact .nil
  | case3 afterDot history rest after read past closed ih =>
    exact ih ((closeFrame_suffix closed).trans ((Piece.rest_suffix read).trans inside))
  | case4 afterDot history rest word after read visit past passed ih =>
    have nonempty := Piece.length_rest read
    obtain rfl := Piece.append_of_read?_word read
    have behind := ((visitor text.length names).suffix passed).trans
      ((List.suffix_append word after).trans inside)
    refine pairwise_found_append inside ?_ (fun other member => ?_) (ih behind)
    · simpa [Piece.rest] using nonempty
    · rw [passed]
      exact start_of_mem_walk member
  | case5 afterDot history rest word after read visit stays ih =>
    have nonempty := Piece.length_rest read
    obtain rfl := Piece.append_of_read?_word read
    have behind := (List.suffix_append word after).trans inside
    refine pairwise_found_append inside ?_ (fun other member => ?_) (ih behind)
    · simpa [Piece.rest] using nonempty
    · rw [stays]
      exact start_of_mem_walk member
  | case6 afterDot history rest after read ih => exact ih ((Piece.rest_suffix read).trans inside)
  | case7 afterDot history rest b after read ih => exact ih ((Piece.rest_suffix read).trans inside)
  | case8 afterDot history rest piece noTemplate noWord noIncrement noMark read ih =>
    exact ih ((Piece.rest_suffix read).trans inside)

/-- No call comes behind one that was cut off. -/
theorem getLast?_of_truncated {items : List Item} {item : Item} {record : ScriptModule}
    (placed : ∀ item ∈ items, item.Placed names text) (rising : items.Pairwise Item.Before)
    (member : item ∈ items) (found : item.module? = some record)
    (truncated : record.truncated = true) : items.getLast? = some item := by
  obtain ⟨front, back, rfl⟩ := List.append_of_mem member
  cases back with
  | nil => exact List.getLast?_concat
  | cons other back =>
    obtain ⟨_, later, _⟩ := List.pairwise_append.mp rising
    have before : item.Before other := List.rel_of_pairwise_cons later List.mem_cons_self
    have start := before.finishes (by rw [found]; rfl)
    have last := ((placed item member).cut record found truncated).1
    have beyond := placed other (List.mem_append_right front (by simp))
    have nonempty := beyond.nonempty
    have within := beyond.within
    omega

/-- The scan reads within the bundle and comes to an end. Its calls begin at the names, lie in the
bundle one before another, and hold the bodies of their modules; a module was cut off only at the end
of the bundle and by the last call. -/
theorem scan_placed (names : List Bytes) (text : Bytes) :
    Guarded.scan names text = some (scan names text) ∧
    (∀ item ∈ scan names text, item.Placed names text) ∧
    (scan names text).Pairwise Item.Before ∧
    ∀ item ∈ scan names text, ∀ record, item.module? = some record → record.truncated = true →
      (scan names text).getLast? = some item := by
  have placed : ∀ item ∈ scan names text, item.Placed names text := fun item => placed_of_mem_scan
  have rising : (scan names text).Pairwise Item.Before := pairwise_walk (List.suffix_refl text)
  exact ⟨Guarded.scan_eq names text, placed, rising, fun item member record found truncated =>
    getLast?_of_truncated placed rising member found truncated⟩

end Bundle

end Unbundle
