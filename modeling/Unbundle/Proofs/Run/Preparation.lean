import Unbundle.Proofs.Disk.Arrival
import Unbundle.Proofs.Output.Storage
import Unbundle.Run.Workspace

/-!
Preparing the output root. Main statement: exactly when the root can be replaced as a whole is
nothing left below it that files stand in the way of or that they leave there.
-/

namespace Unbundle

open Ascii Disk Unbundle.Path

namespace Disk

variable {disk start after : Disk} {path root : Bytes}

theorem removeOnly_ok (removed : disk.removeOnly path = (none, after)) :
    (after = disk ∧ ∀ place, disk.locate path = .ok place → disk.find? place = none) ∨
      ∃ proper : disk.destination path ≠ [], after = disk.remove (disk.destination path) proper := by
  rw [removeOnly] at removed
  cases located : disk.locate path with
  | error problem =>
    rw [located] at removed
    cases problem <;> cases removed
    refine .inl ⟨rfl, ?_⟩
    intro place impossible
    cases impossible
  | ok place =>
    rw [located] at removed
    rw [destination_of_locate located]
    dsimp only at removed
    cases found : disk.find? place with
    | none =>
      rw [found] at removed
      cases removed
      refine .inl ⟨rfl, ?_⟩
      intro other same
      rwa [← Except.ok.inj same]
    | some entry =>
      rw [found] at removed
      dsimp only at removed
      cases last : (names (Bytes.untilNul path)).getLast? with
      | none =>
        rw [last] at removed
        cases removed
      | some name =>
        rw [last] at removed
        dsimp only at removed
        by_cases still : name = here
        · rw [if_pos still] at removed
          cases removed
        by_cases back : name = up
        · rw [if_neg still, if_pos back] at removed
          cases removed
        rw [if_neg still, if_neg back] at removed
        by_cases proper : place ≠ []
        · rw [dif_pos proper] at removed
          cases removed
          exact .inr ⟨proper, rfl⟩
        · rw [dif_neg proper] at removed
          cases removed

/-- Where something was removed with all that lies below, only a directory can be left, and nothing
in it. -/
theorem removeAll_ok (present : disk.presence root = .ok true)
    (removed : disk.removeAll root = (none, after)) {place : Place}
    (inside : disk.destination root <+: place) :
    after.find? place = none ∨
      place = disk.destination root ∧ after.find? place = some .directory := by
  obtain ⟨entry, state⟩ := presence_ok present
  obtain ⟨target, located, found⟩ := status_ok state
  obtain rfl := destination_of_locate located
  rw [removeAll, state] at removed
  cases entry with
  | file content =>
    rcases removeOnly_ok removed with ⟨_, free⟩ | ⟨proper, rfl⟩
    · rw [free _ located] at found
      cases found
    · rw [find?_remove, if_pos inside]
      exact .inl rfl
  | directory =>
    rw [located] at removed
    dsimp only at removed
    rcases removeOnly_ok removed with ⟨rfl, _⟩ | ⟨proper, rfl⟩
    · rw [find?_clear]
      by_cases same : place = disk.destination root
      · rw [if_neg fun below => below.1 same]
        exact .inr ⟨same, same ▸ found⟩
      · rw [if_pos ⟨same, inside⟩]
        exact .inl rfl
    · rw [(clear_intact disk (disk.destination root)).sameOutside.destination_eq] at proper
      have gone := find?_remove (disk.clear (disk.destination root)) (disk.destination root) place
        proper
      rw [if_pos inside] at gone
      exact .inl gone

/-- The disk with its output root prepared, and what was in the way of that. -/
def prepared (disk : Disk) (policy : OverwritePolicy) (root : Bytes) : Option Problem × Disk :=
  match policy, disk.presence root with
  | .clear, .ok true =>
    match disk.removeAll root with
    | (some problem, disk) => (some problem, disk)
    | (none, disk) => disk.makeDirectories root
  | _, _ => disk.makeDirectories root

/-- All that preparing an output root can come to: the root is made, and what stood there is removed
before if it is to be cleared, which may fail. -/
inductive Prepares (disk : Disk) (policy : OverwritePolicy) (root : Bytes) :
    Option Problem × Disk → Prop where
  | made (spared : policy = .clear → disk.presence root ≠ .ok true) :
    Prepares disk policy root (disk.makeDirectories root)
  | stuck {problem : Problem} {middle : Disk} (clears : policy = .clear)
    (present : disk.presence root = .ok true)
    (removed : disk.removeAll root = (some problem, middle)) :
    Prepares disk policy root (some problem, middle)
  | cleared {middle : Disk} (clears : policy = .clear) (present : disk.presence root = .ok true)
    (removed : disk.removeAll root = (none, middle)) :
    Prepares disk policy root (middle.makeDirectories root)

theorem prepares (disk : Disk) (policy : OverwritePolicy) (root : Bytes) :
    disk.Prepares policy root (disk.prepared policy root) := by
  rw [prepared.eq_def]
  cases policy with
  | keep | merge => exact .made fun clears => nomatch clears
  | clear =>
    cases present : disk.presence root with
    | error problem => exact .made fun _ found => nomatch present.symm.trans found
    | ok stands =>
      cases stands with
      | false => exact .made fun _ found => nomatch present.symm.trans found
      | true =>
        rcases removed : disk.removeAll root with ⟨_ | problem, middle⟩
        · exact .cleared rfl present removed
        · exact .stuck rfl present removed

theorem prepared_of_present (present : disk.presence root = .ok true)
    (ready : disk.prepared .clear root = (none, start)) :
    ∃ middle, disk.removeAll root = (none, middle) ∧
      middle.makeDirectories root = (none, start) := by
  have prepares := disk.prepares .clear root
  generalize disk.prepared .clear root = result at prepares ready
  cases prepares with
  | made spared => exact absurd present (spared rfl)
  | stuck => cases ready
  | cleared _ _ removed => exact ⟨_, removed, ready⟩

theorem prepared_of_absent (absent : disk.presence root ≠ .ok true) :
    disk.prepared .clear root = disk.makeDirectories root := by
  have prepares := disk.prepares .clear root
  generalize disk.prepared .clear root = result at prepares ⊢
  cases prepares with
  | made => rfl
  | stuck _ present => exact absurd present absent
  | cleared _ present => exact absurd present absent

theorem prepared_sameOutside (disk : Disk) (policy : OverwritePolicy) (root : Bytes) :
    SameOutside (disk.destination root <+: ·) disk (disk.prepared policy root).2 := by
  have prepares := disk.prepares policy root
  have intact := (disk.removeAll_intact root).sameOutside
  generalize disk.prepared policy root = result at prepares ⊢
  cases prepares with
  | made => exact (disk.makeDirectories_sameOutside root).of_none
  | stuck _ _ removed => rwa [removed] at intact
  | @cleared middle _ _ removed =>
    rw [removed] at intact
    exact intact.trans (middle.makeDirectories_sameOutside root).of_none

/-- A directory is left there unless it lies below a root that is cleared. -/
theorem directory_of_prepare {policy : OverwritePolicy} {place : Place}
    (stands : disk.find? place = some .directory)
    (stays : policy = .clear → disk.presence root = .ok true → ¬disk.destination root <+: place) :
    (disk.prepared policy root).2.find? place = some .directory := by
  have prepares := disk.prepares policy root
  have intact := disk.removeAll_intact root
  generalize disk.prepared policy root = result at prepares ⊢
  cases prepares with
  | made => exact (disk.makeDirectories_grown root).directory place stands
  | stuck clears present removed =>
    rw [removed] at intact
    exact (intact.2 place (stays clears present)).trans stands
  | @cleared middle clears present removed =>
    rw [removed] at intact
    exact (middle.makeDirectories_grown root).directory place
      ((intact.2 place (stays clears present)).trans stands)

/-- Whatever is removed before, the root is made in the end. -/
theorem made_of_prepared {policy : OverwritePolicy}
    (ready : disk.prepared policy root = (none, start)) :
    ∃ middle : Disk, middle.makeDirectories root = (none, start) := by
  have prepares := disk.prepares policy root
  generalize disk.prepared policy root = result at prepares ready
  cases prepares with
  | made => exact ⟨disk, ready⟩
  | stuck => cases ready
  | cleared => exact ⟨_, ready⟩

/-- Once the root is prepared, it leads to a directory, unless its path names none and the working
directory is not there. -/
theorem prepared_opens {policy : OverwritePolicy} (ready : disk.prepared policy root = (none, start)) :
    start.Opens root ∨ start.Adrift root := by
  obtain ⟨middle, made⟩ := made_of_prepared ready
  exact makeDirectories_opens made

/-- On its way to a prepared root, a path has passed directories, or places that the root lies
above of. -/
theorem directory_of_prepared {policy : OverwritePolicy} {place : Place}
    (ready : disk.prepared policy root = (none, start)) (passes : disk.Passes root place) :
    start.find? place = some .directory ∨ disk.destination root <+: place := by
  have current := (disk.prepared_sameOutside policy root).1
  rw [ready] at current
  rcases prepared_opens ready with ⟨target, located, directory⟩ | adrift
  · left
    apply directory_of_passes located directory
    rwa [Passes, current]
  · right
    obtain ⟨front, ⟨rest, whole⟩, rfl⟩ := passes
    rw [destination, ← whole, reach_append]
    apply reach_back
    intro name member
    rw [Bytes.untilNul_eq_self adrift.plain] at whole
    exact adrift.back name (whole ▸ List.mem_append_right _ member)

theorem file?_of_present (present : disk.presence root = .ok true)
    (ready : disk.prepared .clear root = (none, start)) {place : Place}
    (inside : disk.destination root <+: place) : start.file? place = none := by
  obtain ⟨middle, removed, made⟩ := prepared_of_present present ready
  have same := middle.makeDirectories_sameOutside root
  rw [made] at same
  rw [same.2 place id, file?]
  rcases removeAll_ok present removed inside with gone | ⟨_, left⟩
  · rw [gone]
  · rw [left]

/-- A root that was not there keeps the files that stand where it leads. -/
theorem file?_of_absent (absent : disk.presence root ≠ .ok true)
    (ready : disk.prepared .clear root = (none, start)) (place : Place) :
    start.file? place = disk.file? place := by
  have same := disk.makeDirectories_sameOutside root
  rw [← prepared_of_absent absent, ready] at same
  exact same.2 place id

/-- Whether offers take the place of all that a root holds: what stands there is removed with the
root, or none of it would be left over or be in the way; and the way to the root passes no place
that a file is offered for. -/
structure Replaceable (disk : Disk) (root : Bytes) (offers : List Offer) : Prop where
  old : disk.presence root = .ok true ∨
    (∀ place, disk.destination root <+: place → disk.file? place ≠ none →
      ∃ offer ∈ offers, offer.place (disk.destination root) = place) ∧
    ∀ offer ∈ offers, disk.find? (offer.place (disk.destination root)) ≠ some .directory
  way : ∀ offer ∈ offers, ¬disk.Passes root (offer.place (disk.destination root))

/-- A root can be replaced just when its disk is vacated by preparing it. -/
theorem replaceable_iff {offers : List Offer} (ready : disk.prepared .clear root = (none, start))
    (opened : start.status root = .ok .directory) :
    disk.Replaceable root offers ↔ start.Vacated (disk.destination root) offers := by
  obtain ⟨target, located, directory⟩ := status_ok opened
  have passed (place : Place) (passes : disk.Passes root place) :
      start.find? place = some .directory := by
    apply directory_of_passes located directory
    have current := (disk.prepared_sameOutside .clear root).1
    rw [ready] at current
    rwa [Passes, current]
  by_cases present : disk.presence root = .ok true
  · obtain ⟨middle, removed, made⟩ := prepared_of_present present ready
    have current := (disk.removeAll_intact root).1
    rw [removed] at current
    constructor
    · intro replaceable
      constructor
      · intro place inside stands
        exact absurd (file?_of_present present ready inside) stands
      · intro offer member stands
        have led := makeDirectories_directory (by rw [made]; exact stands)
        rcases led with stood | passes
        · rcases removeAll_ok present removed (offer.place_below _) with gone | ⟨same, _⟩
          · rw [gone] at stood
            cases stood
          · exact offer.place_ne _ same
        · rw [Passes, current] at passes
          exact replaceable.way offer member passes
    · intro vacated
      constructor
      · exact .inl present
      · intro offer member passes
        exact vacated.directory offer member (passed _ passes)
  · have unchanged := file?_of_absent present ready
    rw [prepared_of_absent present] at ready
    have grown := disk.makeDirectories_grown root
    rw [ready] at grown
    constructor
    · intro replaceable
      obtain ⟨files, free⟩ := replaceable.old.resolve_left present
      constructor
      · intro place inside stands
        rw [unchanged] at stands
        exact files place inside stands
      · intro offer member stands
        have led := makeDirectories_directory (by rw [ready]; exact stands)
        rcases led with stood | passes
        · exact free offer member stood
        · exact replaceable.way offer member passes
    · intro vacated
      refine ⟨.inr ⟨?_, ?_⟩, ?_⟩
      · intro place inside stands
        rw [← unchanged] at stands
        exact vacated.file place inside stands
      · intro offer member stood
        exact vacated.directory offer member (grown.directory _ stood)
      · intro offer member passes
        exact vacated.directory offer member (passed _ passes)

/-- Where a root that was not there leads without steps back, nothing stood. -/
theorem find?_of_absent (absent : disk.presence root ≠ .ok true)
    (ready : disk.prepared .clear root = (none, start)) (opened : start.Opens root)
    (down : up ∉ names (Bytes.untilNul root)) {place : Place}
    (inside : disk.destination root <+: place) : disk.find? place = none := by
  obtain ⟨target, located, directory⟩ := opened
  have current := (disk.prepared_sameOutside .clear root).1
  rw [ready] at current
  have followed := follow_of_locate located
  have led : disk.destination root = target := by
    rw [← destination_of_locate located, destination, destination, current]
  rw [current] at followed
  have nothing : disk.find? target = none := by
    cases found : disk.find? target with
    | none => rfl
    | some entry =>
      cases entry with
      | file content =>
        have kept := file?_of_absent absent ready target
        rw [file?_eq_some.mpr found, file?, directory] at kept
        cases kept
      | directory =>
        have stood := locate_of_follow located (follow_down down followed found)
        rw [presence, status, stood] at absent
        dsimp only at absent
        rw [found] at absent
        exact absurd rfl absent
  obtain ⟨inner, rfl⟩ := inside
  rw [led]
  by_cases top : inner = []
  · rwa [top, List.append_nil]
  · cases found : disk.find? (target ++ inner) with
    | none => rfl
    | some entry =>
      rw [find?_of_append found top] at nothing
      cases nothing

/-- A root whose path has no step back can always be replaced as a whole. -/
theorem replaceable_of_down {offers : List Offer} (plain : nul ∉ root)
    (ready : disk.prepared .clear root = (none, start))
    (opened : start.status root = .ok .directory) (down : up ∉ names root) :
    disk.Replaceable root offers := by
  have names : up ∉ names (Bytes.untilNul root) := by rwa [Bytes.untilNul_eq_self plain]
  constructor
  · by_cases present : disk.presence root = .ok true
    · exact .inl present
    have free {place : Place} (inside : disk.destination root <+: place) :
        disk.find? place = none :=
      find?_of_absent present ready (status_ok opened) names inside
    refine .inr ⟨?_, ?_⟩
    · intro place inside stands
      rw [file?, free inside] at stands
      exact absurd rfl stands
    · intro offer member stands
      rw [free (offer.place_below _)] at stands
      cases stands
  · rintro offer member ⟨front, ⟨rest, whole⟩, same⟩
    have below := offer.place_below (disk.destination root)
    rw [← whole, List.mem_append, not_or] at names
    have above := reach_down (offer.place (disk.destination root)) names.2
    rw [← same, ← reach_append, whole, ← destination, same] at above
    exact offer.place_ne _ (above.eq_of_length_le below.length_le)

/-- Whether a cleared root is left without files: it was removed, or none stood where it leads. -/
def Cleared (disk : Disk) (root : Bytes) : Prop :=
  disk.presence root = .ok true ∨
    ∀ place, disk.destination root <+: place → disk.file? place = none

theorem cleared_iff (ready : disk.prepared .clear root = (none, start)) :
    disk.Cleared root ↔ ∀ place, disk.destination root <+: place → start.file? place = none := by
  by_cases present : disk.presence root = .ok true
  · exact ⟨fun _ place inside => file?_of_present present ready inside, fun _ => .inl present⟩
  · simp only [Cleared, present, false_or, file?_of_absent present ready]

/-- A root whose path has no step back is always left without files. -/
theorem cleared_of_down (ready : disk.prepared .clear root = (none, start))
    (opened : start.Opens root) (down : up ∉ names (Bytes.untilNul root)) : disk.Cleared root := by
  by_cases present : disk.presence root = .ok true
  · exact .inl present
  · right
    intro place inside
    rw [file?, find?_of_absent present ready opened down inside]

end Disk

namespace Workspace

/-- Preparing the output root changes the disk and writes to the journal. -/
theorem prepare_eq (space : Workspace) (policy : OverwritePolicy) (root : Bytes) :
    (space.prepare policy root).1 = (space.disk.prepared policy root).1.isNone ∧
      (space.prepare policy root).2.disk = (space.disk.prepared policy root).2 ∧
      (space.prepare policy root).2.context = space.context := by
  have made (start : Workspace) :
      (start.makeRoot root).1 = (start.disk.makeDirectories root).1.isNone ∧
        (start.makeRoot root).2.disk = (start.disk.makeDirectories root).2 ∧
        (start.makeRoot root).2.context = start.context := by
    rw [makeRoot]
    rcases start.disk.makeDirectories root with ⟨_ | problem, disk⟩ <;> exact ⟨rfl, rfl, rfl⟩
  have plain := made space
  rw [prepare.eq_def, Disk.prepared.eq_def]
  cases policy with
  | keep => exact plain
  | merge => exact plain
  | clear =>
    cases space.disk.presence root with
    | error problem => exact plain
    | ok present =>
      cases present with
      | false => exact plain
      | true =>
        dsimp only
        rcases space.disk.removeAll root with ⟨_ | problem, disk⟩
        · exact made ({ space with disk }.log .info (utf8 "Removed old output " ++ root))
        · exact ⟨rfl, rfl, rfl⟩

theorem prepared_of_prepare {space begun : Workspace} {policy : OverwritePolicy} {root : Bytes}
    (ready : space.prepare policy root = (true, begun)) :
    space.disk.prepared policy root = (none, begun.disk) ∧ begun.context = space.context := by
  obtain ⟨result, disk, context⟩ := space.prepare_eq policy root
  rw [ready] at result disk context
  refine ⟨?_, context⟩
  rcases made : space.disk.prepared policy root with ⟨_ | problem, start⟩
  · rw [made] at disk
    rw [disk]
  · rw [made] at result
    cases result

theorem prepare_of_prepared {space : Workspace} {policy : OverwritePolicy} {root : Bytes}
    {start : Disk} (ready : space.disk.prepared policy root = (none, start)) :
    ∃ begun, space.prepare policy root = (true, begun) ∧ begun.disk = start ∧
      begun.context = space.context := by
  obtain ⟨result, disk, context⟩ := space.prepare_eq policy root
  rw [ready] at result disk
  exact ⟨_, Prod.ext result rfl, disk, context⟩

/-- Preparing the output root touches no file outside it. -/
theorem prepare_sameOutside (space : Workspace) (policy : OverwritePolicy) (root : Bytes) :
    SameOutside (space.disk.destination root <+: ·) space.disk
        (space.prepare policy root).2.disk ∧
      (space.prepare policy root).2.context.settings = space.context.settings := by
  obtain ⟨_, disk, context⟩ := space.prepare_eq policy root
  rw [disk, context]
  exact ⟨space.disk.prepared_sameOutside policy root, rfl⟩

end Workspace

end Unbundle
