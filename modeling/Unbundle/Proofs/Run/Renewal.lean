import Unbundle.Proofs.Disk.Between
import Unbundle.Proofs.Disk.Without
import Unbundle.Proofs.Run.Preparation

namespace Unbundle.Disk

open Ascii Unbundle.Path

variable {disk start begun middle after later done : Disk} {path root : Bytes} {place : Place}

/-! ### Removing a root again -/

private theorem Opens.removeAll_eq (opens : disk.Opens root) :
    disk.removeAll root = (disk.clear (disk.destination root)).removeOnly root := by
  have state := opens.status_eq
  obtain ⟨target, located, _⟩ := opens
  rw [removeAll, state, located, destination_of_locate located]

private theorem clear_congr (current : later.current = disk.current)
    (same : ∀ other, ¬place <+: other → later.find? other = disk.find? other)
    (top : later.find? place = disk.find? place) : later.clear place = disk.clear place := by
  refine Disk.ext ?_ fun other => ?_
  · exact current
  rw [find?_clear, find?_clear]
  by_cases below : other ≠ place ∧ place <+: other
  · rw [if_pos below, if_pos below]
  · rw [if_neg below, if_neg below]
    by_cases there : other = place
    · rw [there, top]
    · exact same other fun inside => below ⟨there, inside⟩

theorem removeOnly_again (located : disk.locate path = .ok place)
    (stands : disk.find? place ≠ none) (removed : disk.removeOnly path = (none, after))
    (located' : later.locate path = .ok place) (stands' : later.find? place ≠ none) :
    ∃ proper : place ≠ [], later.removeOnly path = (none, later.remove place proper) ∧
      after = disk.remove place proper := by
  obtain ⟨entry, found⟩ := Option.ne_none_iff_exists'.mp stands
  obtain ⟨entry', found'⟩ := Option.ne_none_iff_exists'.mp stands'
  rw [removeOnly, located] at removed
  rw [removeOnly, located']
  dsimp only at removed ⊢
  rw [found] at removed
  rw [found']
  dsimp only at removed ⊢
  cases last : (names (Bytes.untilNul path)).getLast? with
  | none =>
    rw [last] at removed
    cases removed
  | some name =>
    rw [last] at removed
    dsimp only at removed ⊢
    by_cases still : name = here
    · rw [if_pos still] at removed
      cases removed
    by_cases back : name = up
    · rw [if_neg still, if_pos back] at removed
      cases removed
    rw [if_neg still, if_neg back] at removed
    rw [if_neg still, if_neg back]
    by_cases proper : place ≠ []
    · rw [dif_pos proper] at removed
      rw [dif_pos proper]
      cases removed
      exact ⟨proper, rfl, rfl⟩
    · rw [dif_neg proper] at removed
      cases removed

/-- A root that was removed once is removed again to the same disk, where only what lies below it
has changed. -/
theorem removeAll_again (present : start.presence root = .ok true)
    (removed : start.removeAll root = (none, middle)) (opens : done.Opens root)
    (intact : Intact (start.destination root <+: ·) start done) :
    done.removeAll root = (none, middle) := by
  obtain ⟨entry, state⟩ := presence_ok present
  obtain ⟨place, located, found⟩ := status_ok state
  have led := destination_of_locate located
  have led' : done.destination root = place := by rw [intact.sameOutside.destination_eq, led]
  rw [led] at intact
  have directory := opens.destination_eq
  rw [led'] at directory
  rw [opens.removeAll_eq, led']
  cases entry with
  | directory =>
    have opened : start.Opens root := ⟨place, located, found⟩
    rw [opened.removeAll_eq, led] at removed
    rwa [clear_congr intact.1 intact.2 (directory.trans found.symm)]
  | file content =>
    rw [removeAll, state] at removed
    dsimp only at removed
    -- No directory stands where the file stood, so the way to it is still there.
    have stay (other : Place) (stands : start.find? other = some .directory) :
        (done.clear place).find? other = some .directory := by
      have outside : ¬place <+: other := by
        intro inside
        by_cases same : other = place
        · rw [same, found] at stands
          cases stands
        · rw [find?_below_file found inside same] at stands
          cases stands
      rw [find?_clear, if_neg fun inside => outside inside.2, intact.2 other outside, stands]
    have current : (done.clear place).current = start.current := intact.1
    have located' : (done.clear place).locate root = .ok place := by
      apply locate_of_follow located
      rw [current]
      exact follow_mono stay (follow_of_locate located)
    have top : (done.clear place).find? place = some .directory := by
      rw [find?_clear, if_neg fun below => below.1 rfl, directory]
    obtain ⟨proper, again, rfl⟩ := removeOnly_again located
      (by rw [found]; exact Option.some_ne_none _) removed located'
      (by rw [top]; exact Option.some_ne_none _)
    rw [again]
    refine congrArg (Prod.mk none) (Disk.ext current ?_)
    intro other
    rw [find?_remove, find?_remove, find?_clear]
    by_cases inside : place <+: other
    · rw [if_pos inside, if_pos inside]
    · rw [if_neg inside, if_neg inside, if_neg fun below => inside below.2, intact.2 other inside]

theorem follow_gone {names : List Bytes} {target : Place}
    (gone : ∀ place, disk.find? place = some .directory →
      later.find? place = some .directory ∨ later.find? place = none)
    (followed : disk.follow place names = .ok target) :
    later.follow place names = .ok target ∨ later.follow place names = .error .missing := by
  induction names generalizing place with
  | nil => exact .inl followed
  | cons name names ih =>
    obtain ⟨directory, short, rest⟩ := follow_cons_ok followed
    rcases gone place directory with stands | none
    · rw [follow_cons stands short]
      exact ih rest
    · right
      rw [follow, none]

theorem clear_back {below : Place} (directory : (disk.clear place).find? below = some .directory)
    (back : below.dropLast = place) : place = [] := by
  rcases List.eq_nil_or_concat' below with rfl | ⟨front, name, rfl⟩
  · exact back.symm
  · rw [List.dropLast_concat] at back
    subst back
    rw [find?_clear, if_pos ⟨by simp, List.prefix_append _ _⟩] at directory
    cases directory

theorem removeAll_opened (opens : disk.Opens root) (proper : disk.destination root ≠ [])
    (last : (names (Bytes.untilNul root)).getLast? ≠ some here) :
    (disk.removeAll root).1 = none := by
  rw [opens.removeAll_eq]
  obtain ⟨place, located, directory⟩ := opens
  rw [destination_of_locate located] at proper ⊢
  have top : (disk.clear place).find? place = some .directory := by
    rw [find?_clear, if_neg fun below => below.1 rfl, directory]
  have gone (other : Place) (stands : disk.find? other = some .directory) :
      (disk.clear place).find? other = some .directory ∨ (disk.clear place).find? other = none := by
    rw [find?_clear]
    by_cases below : other ≠ place ∧ place <+: other
    · rw [if_pos below]
      exact .inr rfl
    · rw [if_neg below]
      exact .inl stands
  have short := short_of_located located
  have led : (disk.clear place).locate root = .ok place ∨
      (disk.clear place).locate root = .error .missing := by
    rw [locate, if_neg (seen_ne_nil located), if_neg (Nat.not_lt.mpr short)]
    exact follow_gone gone (follow_of_locate located)
  rw [removeOnly]
  rcases led with led | led
  · rw [led]
    dsimp only
    rw [top]
    dsimp only
    have followed := follow_of_locate led
    rcases List.eq_nil_or_concat' (names (Bytes.untilNul root)) with none | ⟨front, name, parts⟩
    · by_cases absolute : isAbsolute (Bytes.untilNul root) = true
      · rw [none, if_pos absolute, follow] at followed
        exact absurd (Except.ok.inj followed).symm proper
      · exact absurd none (names_ne_nil (seen_ne_nil led) absolute)
    · rw [parts] at followed
      obtain ⟨directory, _, arrived⟩ := follow_cons_ok (follow_append_ok followed)
      rw [follow] at arrived
      have arrived := Except.ok.inj arrived
      rw [parts, List.getLast?_concat] at last ⊢
      have still : name ≠ here := fun same => last (congrArg some same)
      have back : name ≠ up := by
        rintro rfl
        rw [step, if_neg (by decide), if_pos rfl] at arrived
        exact proper (clear_back directory arrived)
      dsimp only
      rw [if_neg still, if_neg back, dif_pos proper]
  · rw [led]

/-! ### Preparing a root again -/

theorem prepared_intact (present : start.presence root = .ok true)
    (ready : start.prepared .clear root = (none, begun)) :
    Intact (start.destination root <+: ·) start begun := by
  obtain ⟨middle, removed, made⟩ := prepared_of_present present ready
  obtain ⟨entry, state⟩ := presence_ok present
  obtain ⟨target, located, _⟩ := status_ok state
  have taken := start.removeAll_intact root
  have grown := middle.makeDirectories_grown root
  have same := middle.makeDirectories_sameOutside root
  rw [removed] at taken
  rw [made] at grown same
  refine taken.trans ⟨grown.current, ?_⟩
  intro place outside
  refine find?_congr ⟨?_, grown.directory place⟩ (same.2 place id)
  intro stands
  rcases makeDirectories_directory (by rw [made]; exact stands) with stood | passes
  · exact stood
  · rw [Passes, taken.1] at passes
    rw [destination_of_locate located] at outside taken
    rw [taken.2 place outside]
    apply (passes_located located passes).resolve_left
    rintro rfl
    exact outside List.prefix_rfl

/-- Whether a root is cleared in the same way once output has been put there: it was there, or
nothing stood where it leads, and its path does not end with a dot. -/
def Renewable (disk : Disk) (root : Bytes) : Prop :=
  disk.presence root = .ok true ∨
    (∀ place, disk.destination root <+: place → disk.find? place = none) ∧
      (names (Bytes.untilNul root)).getLast? ≠ some here

/-- What is left when a root is removed again lies between what was there before it was made and
what was there then. -/
theorem removed_between (made : start.makeDirectories root = (none, begun))
    (opens : begun.Opens root) (grown : Grown begun done)
    (intact : Intact (begun.destination root <+: ·) begun done)
    (vacant : ∀ place, begun.destination root <+: place → start.find? place = none)
    (removed : done.removeAll root = (none, middle)) :
    Grown start middle ∧ Grown middle begun ∧
      ∀ place, middle.file? place = start.file? place := by
  have first := start.makeDirectories_grown root
  have same := start.makeDirectories_sameOutside root
  rw [made] at first same
  have taken := done.removeAll_intact root
  have inside {place : Place} (below : begun.destination root <+: place) :
      middle.find? place = none ∨
        place = begun.destination root ∧ middle.find? place = some .directory := by
    rw [← intact.sameOutside.destination_eq] at below ⊢
    exact removeAll_ok (grown.opens opens).presence_eq removed below
  rw [removed, intact.sameOutside.destination_eq] at taken
  have left := intact.trans taken
  have file (place : Place) : middle.file? place = start.file? place := by
    by_cases below : begun.destination root <+: place
    · have nothing : start.file? place = none := by rw [file?, vacant place below]
      rw [nothing, file?]
      rcases inside below with none | ⟨_, directory⟩
      · rw [none]
      · rw [directory]
    · rw [file?_congr (left.2 place below), same.2 place id]
  refine ⟨⟨left.1.trans first.current, ?_, ?_⟩, ⟨left.1.symm, ?_, ?_⟩, file⟩
  · intro place stands
    by_cases below : begun.destination root <+: place
    · rw [vacant place below] at stands
      cases stands
    · rw [left.2 place below]
      exact first.directory place stands
  · intro place stands
    rwa [file]
  · intro place stands
    by_cases below : begun.destination root <+: place
    · rcases inside below with none | ⟨rfl, _⟩
      · rw [none] at stands
        cases stands
      · exact opens.destination_eq
    · rwa [← left.2 place below]
  · intro place stands
    rwa [same.2 place id, ← file]

theorem prepared_again (ready : start.prepared .clear root = (none, begun))
    (opens : begun.Opens root) (grown : Grown begun done)
    (intact : Intact (begun.destination root <+: ·) begun done) (renewable : start.Renewable root) :
    done.prepared .clear root = (none, begun) := by
  have led := (start.prepared_sameOutside .clear root).destination_eq root
  rw [ready] at led
  have opened := grown.opens opens
  suffices again : ∃ middle, done.removeAll root = (none, middle) ∧
      middle.makeDirectories root = (none, begun) by
    obtain ⟨middle, removed, made⟩ := again
    rw [prepared.eq_def, Opens.presence_eq opened]
    dsimp only
    rw [removed]
    exact made
  by_cases present : start.presence root = .ok true
  · obtain ⟨middle, removed, made⟩ := prepared_of_present present ready
    have whole := (prepared_intact present ready).trans (led ▸ intact)
    exact ⟨middle, removeAll_again present removed opened whole, made⟩
  · obtain ⟨vacant, last⟩ := renewable.resolve_left present
    rw [prepared_of_absent present] at ready
    rw [← led] at vacant
    have proper : done.destination root ≠ [] := by
      intro top
      rw [intact.sameOutside.destination_eq] at top
      have rooted := vacant [] (top ▸ List.prefix_rfl)
      rw [find?, start.rooted] at rooted
      cases rooted
    have removed := removeAll_opened opened proper last
    rcases result : done.removeAll root with ⟨problem, middle⟩
    rw [result] at removed
    obtain rfl : problem = none := removed
    obtain ⟨first, second, file⟩ := removed_between ready opens grown intact vacant result
    have fresh : ¬start.Opens root := fun opened => present opened.presence_eq
    exact ⟨middle, rfl, makeDirectories_between ready fresh opens first second file⟩

/-- A root whose path has no step back and does not end with a dot can always be cleared again. -/
theorem renewable_of_down (ready : start.prepared .clear root = (none, begun))
    (down : up ∉ names (Bytes.untilNul root))
    (last : (names (Bytes.untilNul root)).getLast? ≠ some here) : start.Renewable root := by
  by_cases present : start.presence root = .ok true
  · exact .inl present
  have opens : begun.Opens root := by
    rcases prepared_opens ready with opens | adrift
    · exact opens
    obtain ⟨middle, made⟩ := made_of_prepared ready
    have nonempty : root ≠ [] := by
      rintro rfl
      cases made
    apply makeDirectories_starts made
    rw [Bytes.untilNul_eq_self adrift.plain] at down last
    rw [Starts, Bytes.untilNul_eq_self adrift.plain]
    by_cases absolute : isAbsolute root = true
    · rw [if_pos absolute]
      exact begun.rooted
    -- A path that only stays or steps back ends with one dot or two.
    obtain ⟨front, name, parts⟩ := (List.eq_nil_or_concat' (names root)).resolve_left
      (names_ne_nil nonempty absolute)
    rw [parts] at down last
    rw [List.getLast?_concat] at last
    have member : name ∈ front ++ [name] := List.mem_append_right _ (List.mem_singleton_self _)
    rcases adrift.back name (parts ▸ member) with rfl | rfl
    · exact absurd rfl last
    · exact absurd member down
  exact .inr ⟨fun place inside => find?_of_absent present ready opens down inside, last⟩

/-- A root that starts from no directory is prepared again without any change. -/
theorem prepared_adrift {policy : OverwritePolicy}
    (ready : start.prepared policy root = (none, begun)) (still : ¬begun.Starts root) :
    begun.prepared policy root = (none, begun) := by
  obtain ⟨middle, made⟩ := made_of_prepared ready
  have grown := middle.makeDirectories_grown root
  rw [made] at grown
  have same := makeDirectories_adrift fun starts => still (grown.starts starts)
  rw [made] at same
  obtain rfl : begun = middle := same
  cases policy with
  | keep => exact made
  | merge => exact made
  | clear =>
    rw [prepared_of_absent]
    · exact made
    · intro present
      obtain ⟨entry, state⟩ := presence_ok present
      obtain ⟨place, located, _⟩ := status_ok state
      exact still (starts_of_locate located)

end Unbundle.Disk
