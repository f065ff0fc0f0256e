import Unbundle.Proofs.Output.Storage

/-!
What the output records of the files that it was offered. Main statements: the index holds the first
file that was taken for each path, one that was written still stands with its content whatever was
offered since, and an offer that fails leaves index and files alone, but for a file that is written
only in part.
-/

namespace Unbundle

open Ascii Disk Unbundle.Path

namespace Output

variable {policy : OverwritePolicy} {root : Bytes}

/-- All that can come of an offer. -/
inductive Answers (output : Output) (policy : OverwritePolicy) (root : Bytes) (offer : Offer) :
    Except Failure Outcome → Output → Prop where
  | duplicate {print : Fingerprint} (recorded : output.index[offer.path]? = some print)
      (agrees : print.agrees (.ofContent offer.content) = true) :
      Answers output policy root offer (.ok .duplicate) output
  | collision {print : Fingerprint} (recorded : output.index[offer.path]? = some print)
      (differs : print.agrees (.ofContent offer.content) ≠ true) :
      Answers output policy root offer (.error (.collision offer.path)) output
  | unseen {problem : Problem} (fresh : output.index[offer.path]? = none) :
      Answers output policy root offer
        (.error (.disk .status problem (below root offer.path))) output
  | kept (fresh : output.index[offer.path]? = none) (keeps : policy = .keep) :
      Answers output policy root offer (.ok .kept)
        (output.record offer.path (.ofContent offer.content))
  | failed {failure : Failure} {disk : Disk} (fresh : output.index[offer.path]? = none)
      (free : output.isKept policy (below root offer.path) = .ok false)
      (put : put output.disk (below root offer.path)
        (output.device.taken (below root offer.path) offer.content) = (.error failure, disk)) :
      Answers output policy root offer (.error failure) { output with disk }
  | cut {disk : Disk} (fresh : output.index[offer.path]? = none)
      (free : output.isKept policy (below root offer.path) = .ok false)
      (lacking : output.device.cut? (below root offer.path) offer.content ≠ none)
      (put : put output.disk (below root offer.path)
        (output.device.taken (below root offer.path) offer.content) = (.ok (), disk)) :
      Answers output policy root offer
        (.error (.cannotWrite { path := below root offer.path, fault := .cut }))
        { output with disk }
  | written {disk : Disk} (fresh : output.index[offer.path]? = none)
      (free : output.isKept policy (below root offer.path) = .ok false)
      (whole : output.device.cut? (below root offer.path) offer.content = none)
      (put : put output.disk (below root offer.path) offer.content = (.ok (), disk)) :
      Answers output policy root offer (.ok .written)
        ({ output with disk }.record offer.path (.ofContent offer.content))

theorem answers (output : Output) (policy : OverwritePolicy) (root : Bytes) (offer : Offer) :
    Answers output policy root offer (output.offer policy root offer).1
      (output.offer policy root offer).2 := by
  rw [Output.offer, write]
  cases recorded : output.index[offer.path]? with
  | some print =>
    dsimp only
    by_cases agrees : print.agrees (.ofContent offer.content) = true
    · rw [if_pos agrees]
      exact .duplicate recorded agrees
    · rw [if_neg agrees]
      exact .collision recorded agrees
  | none =>
    dsimp only
    cases keeping : output.isKept policy (below root offer.path) with
    | error problem => exact .unseen recorded
    | ok kept =>
      cases kept with
      | true =>
        apply Answers.kept recorded
        rw [isKept] at keeping
        by_cases keeps : policy = .keep
        · exact keeps
        · rw [if_neg keeps] at keeping
          cases keeping
      | false =>
        dsimp only
        rcases stored : output.store (below root offer.path) offer.content with
          ⟨failure | _, disk⟩
        · rcases store_error_cases stored with put | ⟨rfl, lacking, put⟩
          · exact .failed recorded keeping put
          · exact .cut recorded keeping lacking put
        · obtain ⟨whole, put⟩ := store_ok_iff.mp stored
          exact .written recorded keeping whole put

end Output

namespace Disk

variable {disk after : Disk} {root path content : Bytes}

theorem wantsDirectory_of_write (written : disk.write path content = .ok after) :
    wantsDirectory (Bytes.untilNul path) = false := by
  rw [Disk.write] at written
  by_cases wants : wantsDirectory (Bytes.untilNul path) = true
  · rw [if_pos wants] at written
    cases written
  · simpa using wants

/-- A file is written just where the segments of its path lead from the root. Where a NUL cuts the
root, its path means the root itself, and no file is written over a directory. -/
theorem write_place (stands : nul ∈ root → disk.find? (disk.destination root) = some .directory)
    (canonical : Canonical path) (plain : nul ∉ path)
    (written : disk.write (Path.below root path) content = .ok after) :
    disk.destination (Path.below root path) = disk.destination root ++ segments path ∧
      disk.locate (Path.below root path) = .ok (disk.destination root ++ segments path) ∧
      disk.place? (disk.destination root ++ segments path) (.file content) = .ok after := by
  obtain ⟨place, located, placed⟩ := write_ok written
  have led := destination_of_locate located
  suffices same : disk.destination root ++ segments path = place by
    rw [same]
    exact ⟨led, located, placed⟩
  by_cases cut : nul ∈ root
  · rw [destination, untilNul_below cut canonical.head?_ne_slash] at led
    exact absurd (led ▸ stands cut) (place?_ok placed).1
  · have followed := follow_below_plain cut canonical.head?_ne_slash located
    rw [Bytes.untilNul_eq_self plain, names_canonical canonical] at followed
    rw [← reach_of_follow followed, reach_proper]
    exact fun name member => (canonical.segment_ne member).2

end Disk

namespace Output

variable {disk after : Disk} {policy : OverwritePolicy} {root path content : Bytes}

/-- Directories may have been made for a file that was not written. -/
theorem put_error {failure : Failure} {target : Bytes}
    (failed : put disk target content = (.error failure, after)) :
    SameOutside (fun _ => False) disk after := by
  have parent := makeParent_sameOutside disk target
  rcases (put_error_cases failed).2 with ⟨problem, made⟩ | ⟨made, _⟩
  · rwa [made] at parent
  · rwa [made] at parent

/-- A file that has been put stands where its path was found to lead, and no other file has changed. -/
theorem put_at {target : Bytes} {middle : Disk} {place : Place}
    (made : makeParent disk target = (none, middle))
    (written : middle.write target content = .ok after)
    (located : middle.locate target = .ok place)
    (placed : middle.place? place (.file content) = .ok after) :
    after.fileAt? target = some content ∧ after.destination target = place ∧
      ∀ other, after.file? other = if other = place then some content else disk.file? other := by
  have parent := makeParent_sameOutside disk target
  rw [made] at parent
  have holds (other : Place) :
      after.file? other = if other = place then some content else disk.file? other := by
    by_cases same : other = place
    · rw [if_pos same, same, file?_of_place? placed]
    · rw [if_neg same, ← parent.2 other id]
      apply file?_congr
      rw [find?_place? placed, if_neg same]
  have still := (write_grown written).locate_eq located
  have arrived := destination_of_locate still
  refine ⟨?_, arrived, holds⟩
  rw [fileAt?_eq_some, arrived, holds, if_pos rfl]
  exact ⟨still, rfl, wantsDirectory_of_write written⟩

theorem put_ok (canonical : Canonical path) (plain : nul ∉ path)
    (stands : nul ∈ root → disk.find? (disk.destination root) = some .directory)
    (done : put disk (below root path) content = (.ok (), after)) :
    after.fileAt? (below root path) = some content ∧
      after.destination (below root path) = disk.destination root ++ segments path ∧
      ∀ place, after.file? place =
        if place = disk.destination root ++ segments path then some content
        else disk.file? place := by
  obtain ⟨middle, made, written⟩ := put_ok_cases done
  have parent := makeParent_sameOutside disk (below root path)
  have grown := makeParent_grown disk (below root path)
  rw [made] at parent grown
  have stood (cut : nul ∈ root) : middle.find? (middle.destination root) = some .directory := by
    rw [parent.destination_eq]
    exact grown.directory _ (stands cut)
  obtain ⟨_, located, placed⟩ := write_place stood canonical plain written
  rw [parent.destination_eq root] at located placed
  exact put_at made written located placed

/-- The offer, if only a part of its file is written. -/
def cutOff? (output : Output) (policy : OverwritePolicy) (root : Bytes) (offer : Offer) :
    Option Offer :=
  match (output.offer policy root offer).1 with
  | .ok _ => none
  | .error failure => if failure.isCut then some offer else none

/-- The offers of which only a part is written. -/
def cutOffs (output : Output) (policy : OverwritePolicy) (root : Bytes) : List Offer → List Offer
  | [] => []
  | offer :: offers =>
    (output.cutOff? policy root offer).toList ++
      (output.offer policy root offer).2.cutOffs policy root offers

private theorem cutOffs_append (output : Output) (done more : List Offer) :
    output.cutOffs policy root (done ++ more) =
      output.cutOffs policy root done ++
        (output.offerAll policy root done).cutOffs policy root more := by
  induction done generalizing output with
  | nil => rfl
  | cons offer done ih =>
    rw [List.cons_append, cutOffs, cutOffs, ih, List.append_assoc]
    rfl

theorem cutOffs_of_prefix {output : Output} {done offers : List Offer}
    (uncut : output.cutOffs policy root offers = []) (part : done <+: offers) :
    output.cutOffs policy root done = [] := by
  obtain ⟨more, rfl⟩ := part
  rw [cutOffs_append] at uncut
  exact (List.append_eq_nil_iff.mp uncut).1

/-- No offer is written in part if none is where it is made. -/
theorem cutOffs_eq_nil {output : Output} {offers : List Offer}
    (uncut : ∀ done offer, done ++ [offer] <+: offers →
      (output.offerAll policy root done).cutOff? policy root offer = none) :
    output.cutOffs policy root offers = [] := by
  induction offers generalizing output with
  | nil => rfl
  | cons offer offers ih =>
    have rest := ih fun done other part =>
      uncut (offer :: done) other (List.cons_prefix_cons.mpr ⟨rfl, part⟩)
    have first : output.cutOff? policy root offer = none :=
      uncut [] offer (List.cons_prefix_cons.mpr ⟨rfl, List.nil_prefix⟩)
    rw [cutOffs, first, rest]
    rfl

/-- An offer that fails leaves the index as it is. It leaves the content of every file as it is too,
unless its own file is written in part. -/
theorem offer_error {output : Output} {offer : Offer} {failure : Failure}
    (canonical : Canonical offer.path) (plain : nul ∉ offer.path)
    (stands : nul ∈ root → output.disk.find? (output.disk.destination root) = some .directory)
    (failed : (output.offer policy root offer).1 = .error failure) :
    (output.offer policy root offer).2.index = output.index ∧
      ∀ place, (output.offer policy root offer).2.disk.file? place =
        if failure.isCut ∧ place = output.disk.destination root ++ segments offer.path then
          some (output.device.taken (below root offer.path) offer.content)
        else output.disk.file? place := by
  have answer := output.answers policy root offer
  rw [failed] at answer
  generalize (output.offer policy root offer).2 = after at answer
  cases answer with
  | collision recorded differs => exact ⟨rfl, fun _ => rfl⟩
  | unseen fresh => exact ⟨rfl, fun _ => rfl⟩
  | failed fresh free put =>
    rw [(put_error_cases put).1.2]
    exact ⟨rfl, fun place => ((put_error put).2 place id).trans (by simp)⟩
  | cut fresh free lacking put =>
    refine ⟨rfl, fun place => ((put_ok canonical plain stands put).2.2 place).trans ?_⟩
    simp [Failure.isCut]

/-- What is recorded of an offer: the offer itself with what became of it, if it is the first that
is taken for its path. -/
def first? (output : Output) (policy : OverwritePolicy) (root : Bytes) (offer : Offer) :
    Option (Offer × Outcome) :=
  match output.index[offer.path]?, (output.offer policy root offer).1 with
  | none, .ok outcome => some (offer, outcome)
  | _, _ => none

/-- The offers that are the first to be taken for their paths, each with what became of it. -/
def firsts (output : Output) (policy : OverwritePolicy) (root : Bytes) :
    List Offer → List (Offer × Outcome)
  | [] => []
  | offer :: offers =>
    (output.first? policy root offer).toList ++
      (output.offer policy root offer).2.firsts policy root offers

theorem firsts_append (output : Output) (done more : List Offer) :
    output.firsts policy root (done ++ more) =
      output.firsts policy root done ++
        (output.offerAll policy root done).firsts policy root more := by
  induction done generalizing output with
  | nil => rfl
  | cons offer done ih =>
    rw [List.cons_append, firsts, firsts, ih, List.append_assoc]
    rfl

/-- Whether index and disk hold what was taken first: each path has one first offer, which the index
knows by its fingerprint, and one that was written stands with its content. -/
structure Agrees (root : Bytes) (firsts : List (Offer × Outcome)) (output : Output) : Prop where
  distinct : (firsts.map fun first => first.1.path).Nodup
  index : ∀ path print, output.index[path]? = some print ↔
    ∃ first ∈ firsts, first.1.path = path ∧ Fingerprint.ofContent first.1.content = print
  stored : ∀ first ∈ firsts, first.2 = .written →
    output.disk.fileAt? (below root first.1.path) = some first.1.content

/-- Whether the files below a place are just those that the index knows. -/
def Exact (output : Output) (home : Place) : Prop :=
  ∀ inner, output.disk.file? (home ++ inner) ≠ none ↔
    ∃ path print, output.index[path]? = some print ∧ segments path = inner

/-- What offers have made of a disk: only the files that were written differ, in whole or in part,
and each of the whole ones lies where its path leads from the root. -/
structure Traces (start : Disk) (home : Place) (policy : OverwritePolicy) (root : Bytes)
    (firsts : List (Offer × Outcome)) (cuts : List Offer) (output : Output) : Prop
    extends Agrees root firsts output where
  grown : Grown start output.disk
  leads : ∀ first ∈ firsts, first.2 = .written →
    output.disk.destination (below root first.1.path) = first.1.place home
  others : ∀ place, (∀ first ∈ firsts, first.2 = .written → first.1.place home ≠ place) →
    (∀ offer ∈ cuts, offer.place home ≠ place) → output.disk.file? place = start.file? place
  replaces : policy ≠ .keep → ∀ first ∈ firsts, first.2 = .written

namespace Agrees

variable {firsts : List (Offer × Outcome)} {output : Output} {offer : Offer}

theorem path_ne (agrees : Agrees root firsts output) (fresh : output.index[offer.path]? = none)
    {first : Offer × Outcome} (member : first ∈ firsts) : first.1.path ≠ offer.path := by
  intro same
  have recorded := (agrees.index offer.path _).mpr ⟨first, member, same, rfl⟩
  rw [fresh] at recorded
  cases recorded

private theorem distinct_concat (agrees : Agrees root firsts output)
    (fresh : output.index[offer.path]? = none) (outcome : Outcome) :
    ((firsts ++ [(offer, outcome)]).map fun first => first.1.path).Nodup := by
  rw [List.map_append, List.map_singleton, List.nodup_append]
  refine ⟨agrees.distinct, by simp, ?_⟩
  intro path listed other single
  obtain ⟨first, member, rfl⟩ := List.mem_map.mp listed
  rw [List.mem_singleton.mp single]
  exact agrees.path_ne fresh member

private theorem index_concat (agrees : Agrees root firsts output)
    (fresh : output.index[offer.path]? = none) (outcome : Outcome) (path : Bytes)
    (print : Fingerprint) :
    (output.index.insert offer.path (.ofContent offer.content))[path]? = some print ↔
      ∃ first ∈ firsts ++ [(offer, outcome)],
        first.1.path = path ∧ Fingerprint.ofContent first.1.content = print := by
  rw [Std.ExtTreeMap.getElem?_insert]
  simp only [List.mem_append, List.mem_singleton, or_and_right, exists_or, exists_eq_left,
    Std.LawfulEqCmp.compare_eq_iff_eq]
  by_cases same : offer.path = path
  · rw [if_pos same]
    constructor
    · intro recorded
      exact .inr ⟨same, Option.some.inj recorded⟩
    · rintro (⟨first, member, known, _⟩ | ⟨_, rfl⟩)
      · exact absurd (known.trans same.symm) (agrees.path_ne fresh member)
      · rfl
  · rw [if_neg same, agrees.index]
    constructor
    · exact .inl
    · rintro (known | ⟨known, _⟩)
      · exact known
      · exact absurd known same

end Agrees

/-- A file that has been written in part is one that the index does not know. -/
theorem not_exact_of_cut {output : Output} {offer : Offer}
    (canonical : Canonical offer.path) (plain : nul ∉ offer.path)
    (stands : nul ∈ root → output.disk.find? (output.disk.destination root) = some .directory)
    (lacking : output.cutOff? policy root offer ≠ none) :
    ¬(output.offer policy root offer).2.Exact (output.disk.destination root) := by
  have answer := output.answers policy root offer
  rw [cutOff?] at lacking
  generalize (output.offer policy root offer).1 = result,
    (output.offer policy root offer).2 = after at answer lacking
  intro exactly
  cases answer with
  | duplicate => exact lacking rfl
  | collision => exact lacking rfl
  | unseen => exact lacking rfl
  | kept => exact lacking rfl
  | written => exact lacking rfl
  | failed _ _ put =>
    dsimp only at lacking
    rw [(put_error_cases put).1.2] at lacking
    exact lacking rfl
  | cut fresh _ _ put =>
    have holds := (put_ok canonical plain stands put).2.2
    obtain ⟨path, print, recorded, same⟩ := (exactly (segments offer.path)).mp (by
      rw [holds, if_pos rfl]
      exact Option.some_ne_none _)
    rw [← join_segments path, same, join_segments, fresh] at recorded
    cases recorded

namespace Traces

variable {start : Disk} {home : Place} {firsts : List (Offer × Outcome)} {cuts : List Offer}
  {output : Output} {offer : Offer}

theorem nil {index : OutputIndex} {device : Device} (empty : index = ∅) :
    Traces start home policy root [] [] { disk := start, index, device } := by
  refine ⟨⟨List.nodup_nil, ?_, nofun⟩, .refl start, nofun, fun _ _ _ => rfl, nofun⟩
  intro path print
  rw [empty]
  simp

theorem unchanged (traces : Traces start home policy root firsts cuts output) {after : Disk}
    (grown : Grown output.disk after) (same : SameOutside (fun _ => False) output.disk after) :
    Traces start home policy root firsts cuts { output with disk := after } := by
  refine ⟨⟨traces.distinct, traces.index, ?_⟩, traces.grown.trans grown, ?_, ?_, traces.replaces⟩
  · intro first member written
    exact grown.fileAt?_eq (traces.stored first member written) (same.2 _ id)
  · intro first member written
    dsimp only
    rw [same.destination_eq]
    exact traces.leads first member written
  · intro place others uncut
    exact (same.2 place id).trans (traces.others place others uncut)

theorem keep (traces : Traces start home policy root firsts cuts output)
    (fresh : output.index[offer.path]? = none) (keeps : policy = .keep) :
    Traces start home policy root (firsts ++ [(offer, .kept)]) cuts
      (output.record offer.path (.ofContent offer.content)) := by
  refine ⟨⟨traces.distinct_concat fresh .kept, traces.index_concat fresh .kept, ?_⟩,
    traces.grown, ?_, ?_, fun replaces => absurd keeps replaces⟩
  · intro first member written
    rcases List.mem_append.mp member with member | single
    · exact traces.stored first member written
    · rw [List.mem_singleton.mp single] at written
      cases written
  · intro first member written
    rcases List.mem_append.mp member with member | single
    · exact traces.leads first member written
    · rw [List.mem_singleton.mp single] at written
      cases written
  · intro place others uncut
    exact traces.others place
      (fun first member => others first (List.mem_append_left _ member)) uncut

theorem write (traces : Traces start home policy root firsts cuts output)
    (led : start.destination root = home)
    (stands : nul ∈ root → start.find? home = some .directory)
    (canonical : Canonical offer.path) (plain : nul ∉ offer.path)
    (fresh : output.index[offer.path]? = none) {after : Disk}
    (done : put output.disk (below root offer.path) offer.content = (.ok (), after)) :
    Traces start home policy root (firsts ++ [(offer, .written)]) cuts
      ({ output with disk := after }.record offer.path (.ofContent offer.content)) := by
  have grown := put_grown output.disk (below root offer.path) offer.content
  rw [done] at grown
  have dest : output.disk.destination root = home := by
    rw [destination, traces.grown.current]
    exact led
  obtain ⟨found, arrived, holds⟩ := put_ok canonical plain
    (fun cut => dest ▸ traces.grown.directory _ (stands cut)) done
  rw [dest] at arrived holds
  have apart {first : Offer × Outcome} (member : first ∈ firsts) :
      first.1.place home ≠ home ++ segments offer.path := by
    intro same
    exact traces.path_ne fresh member (Offer.place_inj same)
  refine ⟨⟨traces.distinct_concat fresh .written, traces.index_concat fresh .written, ?_⟩,
    traces.grown.trans grown, ?_, ?_, ?_⟩
  · intro first member written
    rcases List.mem_append.mp member with member | single
    · apply grown.fileAt?_eq (traces.stored first member written)
      rw [traces.leads first member written, holds, if_neg (apart member)]
    · rw [List.mem_singleton.mp single]
      exact found
  · intro first member written
    rcases List.mem_append.mp member with member | single
    · rw [← traces.leads first member written, destination, destination, ← grown.current]
      rfl
    · rw [List.mem_singleton.mp single]
      exact arrived
  · intro place others uncut
    obtain ⟨earlier, last⟩ := List.forall_mem_append.mp others
    have different : home ++ segments offer.path ≠ place :=
      last (offer, .written) (List.mem_singleton_self _) rfl
    refine (holds place).trans ?_
    rw [if_neg (Ne.symm different)]
    exact traces.others place earlier uncut
  · intro replaces first member
    rcases List.mem_append.mp member with member | single
    · exact traces.replaces replaces first member
    · rw [List.mem_singleton.mp single]

/-- A file that is written in part lies where no file is that was written before. -/
theorem cut (traces : Traces start home policy root firsts cuts output)
    (led : start.destination root = home)
    (stands : nul ∈ root → start.find? home = some .directory)
    (canonical : Canonical offer.path) (plain : nul ∉ offer.path)
    (fresh : output.index[offer.path]? = none) {part : Bytes} {after : Disk}
    (done : put output.disk (below root offer.path) part = (.ok (), after)) :
    Traces start home policy root firsts (cuts ++ [offer]) { output with disk := after } := by
  have grown := put_grown output.disk (below root offer.path) part
  rw [done] at grown
  have dest : output.disk.destination root = home := by
    rw [destination, traces.grown.current]
    exact led
  obtain ⟨_, _, holds⟩ := put_ok canonical plain
    (fun cut => dest ▸ traces.grown.directory _ (stands cut)) done
  rw [dest] at holds
  refine ⟨⟨traces.distinct, traces.index, ?_⟩, traces.grown.trans grown, ?_, ?_, traces.replaces⟩
  · intro first member written
    apply grown.fileAt?_eq (traces.stored first member written)
    rw [traces.leads first member written, holds, if_neg]
    exact fun same => traces.path_ne fresh member (Offer.place_inj same)
  · intro first member written
    rw [← traces.leads first member written, destination, destination, ← grown.current]
  · intro place others uncut
    obtain ⟨earlier, last⟩ := List.forall_mem_append.mp uncut
    have different : home ++ segments offer.path ≠ place := last offer (List.mem_singleton_self _)
    refine (holds place).trans ?_
    rw [if_neg (Ne.symm different)]
    exact traces.others place others earlier

theorem step (traces : Traces start home policy root firsts cuts output)
    (led : start.destination root = home)
    (stands : nul ∈ root → start.find? home = some .directory)
    (canonical : Canonical offer.path) (plain : nul ∉ offer.path) :
    Traces start home policy root (firsts ++ (output.first? policy root offer).toList)
      (cuts ++ (output.cutOff? policy root offer).toList)
      (output.offer policy root offer).2 := by
  have answer := output.answers policy root offer
  rw [first?, cutOff?]
  generalize (output.offer policy root offer).1 = result at answer ⊢
  generalize (output.offer policy root offer).2 = after at answer ⊢
  cases answer with
  | duplicate recorded agrees =>
    rw [recorded]
    simpa using traces
  | collision recorded differs =>
    rw [recorded]
    simpa [Failure.isCut] using traces
  | unseen fresh =>
    rw [fresh]
    simpa [Failure.isCut] using traces
  | kept fresh keeps =>
    rw [fresh]
    simpa using traces.keep fresh keeps
  | failed fresh free put =>
    have grown := put_grown output.disk (below root offer.path)
      (output.device.taken (below root offer.path) offer.content)
    rw [put] at grown
    dsimp only
    rw [fresh, (put_error_cases put).1.2]
    simpa using traces.unchanged grown (put_error put)
  | cut fresh free lacking put =>
    rw [fresh]
    simpa [Failure.isCut] using traces.cut led stands canonical plain fresh put
  | written fresh free whole put =>
    rw [fresh]
    simpa using traces.write led stands canonical plain fresh put

/-- Any number of offers leave behind just what was taken first. -/
theorem offerAll (traces : Traces start home policy root firsts cuts output)
    (led : start.destination root = home)
    (stands : nul ∈ root → start.find? home = some .directory) {offers : List Offer}
    (proper : ∀ offer ∈ offers, Canonical offer.path ∧ nul ∉ offer.path) :
    Traces start home policy root (firsts ++ output.firsts policy root offers)
      (cuts ++ output.cutOffs policy root offers) (output.offerAll policy root offers) := by
  induction offers generalizing output firsts cuts with
  | nil =>
    rw [Output.firsts, cutOffs, List.append_nil, List.append_nil]
    exact traces
  | cons offer offers ih =>
    obtain ⟨⟨canonical, plain⟩, others⟩ := List.forall_mem_cons.mp proper
    rw [Output.firsts, cutOffs, ← List.append_assoc, ← List.append_assoc]
    exact ih (traces.step led stands canonical plain) others

/-- Where no file stood and none was written in part, the files are those that were taken. -/
theorem exact_of_vacant (traces : Traces start home policy root firsts [] output)
    (replaces : policy ≠ .keep)
    (vacant : ∀ place, home <+: place → start.file? place = none) : output.Exact home := by
  intro inner
  constructor
  · intro stands
    by_cases offered : ∃ first ∈ firsts, first.1.place home = home ++ inner
    · obtain ⟨first, member, same⟩ := offered
      exact ⟨first.1.path, _, (traces.index _ _).mpr ⟨first, member, rfl, rfl⟩,
        List.append_cancel_left same⟩
    · have untouched := traces.others (home ++ inner)
        (fun first member _ same => offered ⟨first, member, same⟩) nofun
      rw [untouched, vacant _ (List.prefix_append home inner)] at stands
      exact absurd rfl stands
  · rintro ⟨path, print, recorded, rfl⟩
    obtain ⟨first, member, rfl, _⟩ := (traces.index path print).mp recorded
    have written := traces.replaces replaces first member
    obtain ⟨_, found, _⟩ := fileAt?_eq_some.mp (traces.stored first member written)
    rw [traces.leads first member written, Offer.place] at found
    rw [found]
    exact Option.some_ne_none first.1.content

end Traces

end Output

end Unbundle
