import Unbundle.Proofs.Answer
import Unbundle.Proofs.Disk.Arrival

/-!
Two disks with different files at some places. Main statement: paths that do not pass a place where
one of the disks has a file and the other has none lead to the same places on both, and whatever is
done to both disks by such paths has the same result and leaves them as different as they were.
-/

namespace Unbundle.Disk

open Ascii Unbundle.Path

/-- How the files at each place of two disks may differ. -/
abbrev Difference := Place → Option Bytes → Option Bytes → Prop

/-- Two disks with the same directories and with files that differ only as they may. -/
structure Alike (differ : Difference) (disk other : Disk) : Prop where
  current : other.current = disk.current
  directory : ∀ place, other.find? place = some .directory ↔ disk.find? place = some .directory
  file : ∀ place, other.file? place = disk.file? place ∨
    differ place (disk.file? place) (other.file? place)

/-- A place where none of the disks has a file that the other one lacks. -/
def Kept (differ : Difference) (place : Place) : Prop :=
  ∀ content other, differ place content other → (content = none ↔ other = none)

/-- Whether a path passes such places only. -/
def Keeps (disk : Disk) (differ : Difference) (path : Bytes) : Prop :=
  ∀ place, disk.Passes path place → Kept differ place

inductive SameKind : Entry → Entry → Prop where
  | directory : SameKind .directory .directory
  | file (content other : Bytes) : SameKind (.file content) (.file other)

variable {differ : Difference} {disk other after after' : Disk} {path content : Bytes}
  {place : Place}

namespace Keeps

theorem congr (keeps : disk.Keeps differ path) (current : after.current = disk.current) :
    after.Keeps differ path := by
  rintro place ⟨front, part, rfl⟩
  rw [current]
  exact keeps _ ⟨front, part, rfl⟩

theorem parent (keeps : disk.Keeps differ path) : disk.Keeps differ (parent path) :=
  fun place passes => keeps place (passes_of_parent passes)

theorem destination (keeps : disk.Keeps differ path) : Kept differ (disk.destination path) :=
  keeps _ ⟨_, List.prefix_rfl, rfl⟩

theorem ancestors (keeps : disk.Keeps differ path) {text : Bytes}
    (member : text ∈ ancestors (withoutSlash path)) : disk.Keeps differ text := by
  apply ancestors_induction (motive := disk.Keeps differ) (fun _ keeps => keeps.parent) member
  rcases withoutSlash_cases path with same | same
  · rwa [same]
  · rw [same]
    exact keeps.parent

end Keeps

theorem keeps_below {root : Bytes} (keeps : disk.Keeps differ root)
    (inside : ∀ place, disk.destination root <+: place → Kept differ place)
    (above : Kept differ (disk.destination root).dropLast) (canonical : Canonical path) :
    disk.Keeps differ (Path.below root path) := by
  intro place passes
  rcases passes_canonical canonical passes with passes | below | rfl
  · exact keeps place passes
  · exact inside place below
  · exact above

/-- A name below a directory passes what the directory does, and the entry of that name. -/
theorem keeps_name {root name : Bytes} (keeps : disk.Keeps differ root) (nonempty : name ≠ [])
    (plain : slash ∉ name ∧ nul ∉ name) (proper : name ≠ here ∧ name ≠ up)
    (kept : Kept differ (disk.destination root ++ [name])) :
    disk.Keeps differ (Path.below root name) := by
  have relative : name.head? ≠ some slash := fun absolute =>
    plain.1 (List.mem_of_mem_head? absolute)
  intro place passes
  rcases passes_below relative passes with passes | ⟨front, part, rfl⟩
  · exact keeps place passes
  rw [Bytes.untilNul_eq_self plain.2, names_plain nonempty plain.1] at part
  rcases List.prefix_cons_iff.mp part with rfl | ⟨rest, rfl, none⟩
  · exact keeps.destination
  · rw [List.prefix_nil.mp none]
    rw [← step_proper proper] at kept
    exact kept

namespace Alike

theorem refl (disk : Disk) : Alike differ disk disk :=
  ⟨rfl, fun _ => Iff.rfl, fun _ => .inl rfl⟩

/-- Disks stay alike where both change to the same or none does. -/
theorem change (alike : Alike differ disk other) (current : after'.current = after.current)
    (same : ∀ place, after'.find? place = after.find? place ∨
      after.find? place = disk.find? place ∧ after'.find? place = other.find? place) :
    Alike differ after after' := by
  refine ⟨current, ?_, ?_⟩
  · intro place
    rcases same place with changed | ⟨left, right⟩
    · rw [changed]
    · rw [left, right]
      exact alike.directory place
  · intro place
    rcases same place with changed | ⟨left, right⟩
    · exact .inl (file?_congr changed)
    · rw [file?_congr left, file?_congr right]
      exact alike.file place

theorem kind (alike : Alike differ disk other) (kept : Kept differ place) :
    Option.Rel SameKind (disk.find? place) (other.find? place) := by
  by_cases stands : disk.find? place = some .directory
  · rw [stands, (alike.directory place).mpr stands]
    exact .some .directory
  have apart : other.find? place ≠ some .directory := fun found =>
    stands ((alike.directory place).mp found)
  have same : disk.file? place = none ↔ other.file? place = none := by
    rcases alike.file place with same | differs
    · rw [same]
    · exact kept _ _ differs
  cases content : disk.file? place with
  | none =>
    rw [find?_eq_none stands content, find?_eq_none apart (same.mp content)]
    exact .none
  | some text =>
    have some : other.file? place ≠ none := by
      intro gone
      rw [same.mpr gone] at content
      cases content
    obtain ⟨text', found⟩ := Option.ne_none_iff_exists'.mp some
    rw [file?_eq_some.mp content, file?_eq_some.mp found]
    exact .some (.file text text')

theorem follow_eq (alike : Alike differ disk other) {names : List Bytes}
    (kept : ∀ front, front <+: names → Kept differ (reach place front)) :
    other.follow place names = disk.follow place names := by
  induction names generalizing place with
  | nil => rfl
  | cons name names ih =>
    have rest : other.follow (step place name) names = disk.follow (step place name) names := by
      apply ih
      intro front part
      exact kept (name :: front) (List.cons_prefix_cons.mpr ⟨rfl, part⟩)
    have kind : Option.Rel SameKind (disk.find? place) (other.find? place) :=
      alike.kind (kept [] List.nil_prefix)
    rw [follow, follow]
    generalize disk.find? place = entry, other.find? place = entry' at kind ⊢
    cases kind with
    | none => rfl
    | some same =>
      cases same with
      | file content other => rfl
      | directory =>
        rw [step] at rest
        dsimp only
        by_cases still : name = here
        · rw [if_pos still] at rest
          rw [if_pos still, if_pos still]
          exact rest
        by_cases back : name = up
        · rw [if_neg still, if_pos back] at rest
          rw [if_neg still, if_neg still, if_pos back, if_pos back]
          exact rest
        rw [if_neg still, if_neg back] at rest
        rw [if_neg still, if_neg still, if_neg back, if_neg back, rest]

theorem locate_eq (alike : Alike differ disk other) (keeps : disk.Keeps differ path) :
    other.locate path = disk.locate path := by
  have followed := alike.follow_eq fun front part => keeps _ ⟨front, part, rfl⟩
  rw [locate, locate, alike.current, followed]

theorem opens (alike : Alike differ disk other) (keeps : disk.Keeps differ path)
    (opens : disk.Opens path) : other.Opens path := by
  obtain ⟨place, located, directory⟩ := opens
  exact ⟨place, (alike.locate_eq keeps).trans located, (alike.directory place).mpr directory⟩

theorem status (alike : Alike differ disk other) (keeps : disk.Keeps differ path) :
    BothAnswer SameKind (disk.status path) (other.status path) := by
  rw [Disk.status, Disk.status, alike.locate_eq keeps]
  cases located : disk.locate path with
  | error problem => exact .error problem
  | ok place =>
    have kept := keeps.destination
    rw [destination_of_locate located] at kept
    have kind := alike.kind kept
    dsimp only
    generalize disk.find? place = entry, other.find? place = entry' at kind ⊢
    cases kind with
    | none => exact .error _
    | some same =>
      cases same with
      | directory => exact .ok .directory
      | file content content' =>
        dsimp only
        by_cases wants : wantsDirectory (Bytes.untilNul path) = true
        · rw [if_pos wants, if_pos wants]
          exact .error _
        · rw [if_neg wants, if_neg wants]
          exact .ok (.file content content')

theorem presence_eq (alike : Alike differ disk other) (keeps : disk.Keeps differ path) :
    other.presence path = disk.presence path := by
  have same := alike.status keeps
  rw [presence, presence]
  generalize disk.status path = state, other.status path = state' at same ⊢
  cases same with
  | error problem => rfl
  | ok kind => rfl

/-- A path names a file on both disks or on none, and the files differ only as they may. -/
theorem fileAt? (alike : Alike differ disk other) (keeps : disk.Keeps differ path) :
    Option.Rel (fun content content' => content' = content ∨
        differ (disk.destination path) (some content) (some content'))
      (disk.fileAt? path) (other.fileAt? path) := by
  have same := alike.status keeps
  rw [Disk.fileAt?, Disk.fileAt?]
  cases state : disk.status path with
  | error problem =>
    rw [state] at same
    generalize other.status path = state' at same ⊢
    cases same
    exact .none
  | ok entry =>
    rw [state] at same
    cases state' : other.status path with
    | error problem =>
      rw [state'] at same
      cases same
    | ok entry' =>
      rw [state'] at same
      obtain ⟨⟩ | kind := same
      cases kind with
      | directory => exact .none
      | file content content' =>
        obtain ⟨place, located, found⟩ := status_ok state
        obtain ⟨place', located', found'⟩ := status_ok state'
        obtain rfl := Except.ok.inj (located'.symm.trans ((alike.locate_eq keeps).trans located))
        rw [destination_of_locate located]
        have files := alike.file place'
        rw [file?_eq_some.mpr found, file?_eq_some.mpr found'] at files
        exact .some (files.imp_left Option.some.inj)

theorem place? (alike : Alike differ disk other) (place : Place) (entry : Entry) :
    BothAnswer (Alike differ) (disk.place? place entry) (other.place? place entry) := by
  have free := alike.directory place
  have inside := alike.directory place.dropLast
  cases placed : disk.place? place entry with
  | error problem =>
    rw [Disk.place?] at placed ⊢
    by_cases stands : disk.find? place = some .directory
    · rw [dif_pos stands] at placed
      rw [dif_pos (free.mpr stands), ← placed]
      exact .error _
    rw [dif_neg stands] at placed
    rw [dif_neg fun found => stands (free.mp found)]
    by_cases lies : disk.find? place.dropLast = some .directory
    · rw [dif_pos lies] at placed
      cases placed
    · rw [dif_neg lies] at placed
      rw [dif_neg fun found => lies (inside.mp found), ← placed]
      exact .error _
  | ok after =>
    obtain ⟨stands, lies⟩ := place?_ok placed
    have there : ∃ after', other.place? place entry = .ok after' := by
      rw [Disk.place?, dif_neg fun found => stands (free.mp found), dif_pos (inside.mpr lies)]
      exact ⟨_, rfl⟩
    obtain ⟨after', placed'⟩ := there
    rw [placed']
    refine .ok (alike.change ?_ ?_)
    · rw [current_of_place? placed, current_of_place? placed', alike.current]
    · intro target
      rw [find?_place? placed, find?_place? placed']
      by_cases same : target = place
      · rw [if_pos same, if_pos same]
        exact .inl rfl
      · rw [if_neg same, if_neg same]
        exact .inr ⟨rfl, rfl⟩

theorem write (alike : Alike differ disk other) (keeps : disk.Keeps differ path)
    (content : Bytes) :
    BothAnswer (Alike differ) (disk.write path content) (other.write path content) := by
  rw [Disk.write, Disk.write, alike.locate_eq keeps]
  by_cases wants : wantsDirectory (Bytes.untilNul path) = true
  · rw [if_pos wants, if_pos wants]
    exact .error _
  rw [if_neg wants, if_neg wants]
  cases disk.locate path with
  | error problem => exact .error problem
  | ok place => exact alike.place? place (.file content)

theorem makeDirectory (alike : Alike differ disk other) (keeps : disk.Keeps differ path) :
    BothAnswer (Alike differ) (disk.makeDirectory path) (other.makeDirectory path) := by
  rw [Disk.makeDirectory, Disk.makeDirectory, alike.locate_eq keeps]
  cases located : disk.locate path with
  | error problem => exact .error problem
  | ok place =>
    have kept := keeps.destination
    rw [destination_of_locate located] at kept
    have kind := alike.kind kept
    dsimp only
    generalize disk.find? place = entry, other.find? place = entry' at kind ⊢
    cases kind with
    | none => exact alike.place? place .directory
    | some same =>
      cases same with
      | directory => exact .ok alike
      | file content content' => exact .error _

theorem missingDirectories_eq (alike : Alike differ disk other) {texts : List Bytes}
    (keeps : ∀ text ∈ texts, disk.Keeps differ text) (made : List Bytes) :
    other.missingDirectories made texts = disk.missingDirectories made texts := by
  induction texts generalizing made with
  | nil => rfl
  | cons path outer ih =>
    have rest := ih fun text member => keeps text (List.mem_cons_of_mem _ member)
    cases outer with
    | nil => rfl
    | cons next outer =>
      have same := alike.status (keeps next (List.mem_cons_of_mem _ List.mem_cons_self))
      rw [missingDirectories.eq_def, missingDirectories.eq_def disk]
      dsimp only
      rw [rest]
      generalize disk.status next = state, other.status next = state' at same ⊢
      cases same with
      | error problem => rfl
      | ok kind => cases kind <;> rfl

theorem makeEach (alike : Alike differ disk other) {paths : List Bytes}
    (keeps : ∀ path ∈ paths, disk.Keeps differ path) :
    (other.makeEach paths).1 = (disk.makeEach paths).1 ∧
      Alike differ (disk.makeEach paths).2 (other.makeEach paths).2 := by
  induction paths generalizing disk other with
  | nil => exact ⟨rfl, alike⟩
  | cons path paths ih =>
    obtain ⟨first, others⟩ := List.forall_mem_cons.mp keeps
    have same := alike.makeDirectory first
    have current {middle : Disk} (made : disk.makeDirectory path = .ok middle) :
        middle.current = disk.current := (makeDirectory_sameOutside made).1
    rw [Disk.makeEach, Disk.makeEach]
    generalize disk.makeDirectory path = result, other.makeDirectory path = result'
      at same current ⊢
    cases same with
    | error problem => exact ⟨rfl, alike⟩
    | ok alike => exact ih alike fun text member => (others text member).congr (current rfl)

theorem makeDirectories (alike : Alike differ disk other) (keeps : disk.Keeps differ path) :
    (other.makeDirectories path).1 = (disk.makeDirectories path).1 ∧
      Alike differ (disk.makeDirectories path).2 (other.makeDirectories path).2 := by
  have same := alike.status keeps
  have missing := alike.missingDirectories_eq (fun text member => keeps.ancestors member) []
  rw [Disk.makeDirectories, Disk.makeDirectories, missing]
  by_cases empty : path = []
  · rw [if_pos empty, if_pos empty]
    exact ⟨rfl, alike⟩
  rw [if_neg empty, if_neg empty]
  generalize disk.status path = state, other.status path = state' at same ⊢
  cases same with
  | ok kind => cases kind <;> exact ⟨rfl, alike⟩
  | error problem =>
    dsimp only
    by_cases absent : problem.isAbsence = true
    · rw [if_pos absent, if_pos absent]
      cases found : disk.missingDirectories [] (ancestors (withoutSlash path)) with
      | error problem => exact ⟨rfl, alike⟩
      | ok paths =>
        apply alike.makeEach
        intro text member
        exact fun place passes => keeps place (passes_of_missing found member passes)
    · rw [if_neg absent, if_neg absent]
      exact ⟨rfl, alike⟩

theorem remove (alike : Alike differ disk other) (proper : place ≠ []) :
    Alike differ (disk.remove place proper) (other.remove place proper) := by
  refine alike.change ?_ ?_
  · exact alike.current
  intro target
  rw [find?_remove, find?_remove]
  by_cases inside : place <+: target
  · rw [if_pos inside, if_pos inside]
    exact .inl rfl
  · rw [if_neg inside, if_neg inside]
    exact .inr ⟨rfl, rfl⟩

theorem clear (alike : Alike differ disk other) (place : Place) :
    Alike differ (disk.clear place) (other.clear place) := by
  refine alike.change ?_ ?_
  · exact alike.current
  intro target
  rw [find?_clear, find?_clear]
  by_cases inside : target ≠ place ∧ place <+: target
  · rw [if_pos inside, if_pos inside]
    exact .inl rfl
  · rw [if_neg inside, if_neg inside]
    exact .inr ⟨rfl, rfl⟩

theorem removeOnly (alike : Alike differ disk other) (keeps : disk.Keeps differ path) :
    (other.removeOnly path).1 = (disk.removeOnly path).1 ∧
      Alike differ (disk.removeOnly path).2 (other.removeOnly path).2 := by
  rw [Disk.removeOnly, Disk.removeOnly, alike.locate_eq keeps]
  cases located : disk.locate path with
  | error problem => cases problem <;> exact ⟨rfl, alike⟩
  | ok place =>
    have kept := keeps.destination
    rw [destination_of_locate located] at kept
    have kind := alike.kind kept
    dsimp only
    generalize disk.find? place = entry, other.find? place = entry' at kind ⊢
    cases kind with
    | none => exact ⟨rfl, alike⟩
    | some same =>
      dsimp only
      cases (names (Bytes.untilNul path)).getLast? with
      | none => exact ⟨rfl, alike⟩
      | some name =>
        dsimp only
        by_cases still : name = here
        · rw [if_pos still, if_pos still]
          exact ⟨rfl, alike⟩
        by_cases back : name = up
        · rw [if_neg still, if_neg still, if_pos back, if_pos back]
          exact ⟨rfl, alike⟩
        rw [if_neg still, if_neg still, if_neg back, if_neg back]
        by_cases proper : place ≠ []
        · rw [dif_pos proper, dif_pos proper]
          exact ⟨rfl, alike.remove proper⟩
        · rw [dif_neg proper, dif_neg proper]
          exact ⟨rfl, alike⟩

theorem removeAll (alike : Alike differ disk other) (keeps : disk.Keeps differ path) :
    (other.removeAll path).1 = (disk.removeAll path).1 ∧
      Alike differ (disk.removeAll path).2 (other.removeAll path).2 := by
  have same := alike.status keeps
  rw [Disk.removeAll, Disk.removeAll, alike.locate_eq keeps]
  generalize disk.status path = state, other.status path = state' at same ⊢
  cases same with
  | error problem => cases problem <;> exact ⟨rfl, alike⟩
  | ok kind =>
    cases kind with
    | file content content' => exact alike.removeOnly keeps
    | directory =>
      cases disk.locate path with
      | error problem => exact ⟨rfl, alike⟩
      | ok place => exact (alike.clear place).removeOnly (keeps.congr rfl)

end Alike

end Unbundle.Disk
