import Unbundle.Disk.Change

/-!
Where a path leads when only its text is looked at. Main statement: the disk can refuse a path but
never leads it elsewhere.
-/

namespace Unbundle.Disk

open Ascii

/-- Where a path leads if the disk allows it at all. -/
def destination (disk : Disk) (path : Bytes) : Place :=
  let seen := Bytes.untilNul path
  reach (if isAbsolute seen then [] else disk.current) (names seen)

theorem step_proper {place : Place} {name : Bytes} (proper : name ≠ Path.here ∧ name ≠ Path.up) :
    step place name = place ++ [name] := by
  rw [step, if_neg proper.1, if_neg proper.2]

theorem reach_append (place : Place) (first second : List Bytes) :
    reach place (first ++ second) = reach (reach place first) second := by
  rw [reach, reach, reach, List.foldl_append]

/-- Proper names lead further down. -/
theorem reach_proper (place : Place) {names : List Bytes}
    (proper : ∀ name ∈ names, name ≠ Path.here ∧ name ≠ Path.up) :
    reach place names = place ++ names := by
  induction names generalizing place with
  | nil => rw [reach, List.foldl_nil, List.append_nil]
  | cons name names ih =>
    obtain ⟨first, others⟩ := List.forall_mem_cons.mp proper
    have rest := ih (place ++ [name]) others
    rw [reach] at rest ⊢
    rw [List.foldl_cons, step_proper first, rest, List.append_assoc, List.singleton_append]

/-- Names that stay or step back lead to a place above. -/
theorem reach_back (place : Place) {names : List Bytes}
    (back : ∀ name ∈ names, name = Path.here ∨ name = Path.up) : reach place names <+: place := by
  induction names generalizing place with
  | nil => exact List.prefix_rfl
  | cons name names ih =>
    obtain ⟨first, others⟩ := List.forall_mem_cons.mp back
    have rest := ih (step place name) others
    have above : step place name <+: place := by
      rcases first with still | back
      · have stays : step place name = place := by rw [step, if_pos still]
        exact stays.symm ▸ List.prefix_rfl
      · rw [step, if_neg (by rw [back]; decide), if_pos back]
        exact List.dropLast_prefix place
    exact rest.trans above

/-- Without a step back, names lead further down or stay. -/
theorem reach_down (place : Place) {names : List Bytes} (down : Path.up ∉ names) :
    place <+: reach place names := by
  induction names generalizing place with
  | nil => exact List.prefix_rfl
  | cons name names ih =>
    rw [List.mem_cons, not_or] at down
    have rest := ih (step place name) down.2
    rw [step, if_neg (Ne.symm down.1)] at rest
    rw [reach, List.foldl_cons, ← reach, step, if_neg (Ne.symm down.1)]
    by_cases still : name = Path.here
    · rw [if_pos still] at rest ⊢
      exact rest
    · rw [if_neg still] at rest ⊢
      exact (List.prefix_append _ _).trans rest

/-- What lies apart from a directory lies apart from its entries. -/
theorem apart_concat {home place : Place} (apart : ¬home <+: place ∧ ¬place <+: home)
    (name : Bytes) : ¬home <+: place ++ [name] := by
  intro inside
  rcases List.prefix_concat_iff.mp inside with whole | inside
  · exact apart.2 (whole ▸ List.prefix_append _ _)
  · exact apart.1 inside

theorem follow_cons {disk : Disk} {place : Place} {name : Bytes}
    (directory : disk.find? place = some .directory) (short : name.length ≤ maxNameLength)
    (names : List Bytes) : disk.follow place (name :: names) = disk.follow (step place name) names := by
  rw [follow, directory, step]
  dsimp only
  by_cases still : name = Path.here
  · rw [if_pos still, if_pos still]
  by_cases back : name = Path.up
  · rw [if_neg still, if_pos back, if_neg still, if_pos back]
  · rw [if_neg still, if_neg back, if_neg (Nat.not_lt.mpr short), if_neg still, if_neg back]

theorem follow_cons_ok {disk : Disk} {place other : Place} {name : Bytes} {names : List Bytes}
    (followed : disk.follow place (name :: names) = .ok other) :
    disk.find? place = some .directory ∧ name.length ≤ maxNameLength ∧
      disk.follow (step place name) names = .ok other := by
  have directory : disk.find? place = some .directory := by
    rw [follow] at followed
    cases found : disk.find? place with
    | none =>
      rw [found] at followed
      cases followed
    | some entry =>
      cases entry with
      | file content =>
        rw [found] at followed
        cases followed
      | directory => rfl
  have short : name.length ≤ maxNameLength := by
    rw [follow, directory] at followed
    dsimp only at followed
    by_cases still : name = Path.here
    · rw [still]
      decide
    by_cases back : name = Path.up
    · rw [back]
      decide
    by_cases long : maxNameLength < name.length
    · rw [if_neg still, if_neg back, if_pos long] at followed
      cases followed
    · exact Nat.not_lt.mp long
  rw [follow_cons directory short] at followed
  exact ⟨directory, short, followed⟩

/-- Whoever follows names goes step by step, and so gets nowhere but where they lead. -/
theorem follow_append_ok {disk : Disk} {place other : Place} {first second : List Bytes}
    (followed : disk.follow place (first ++ second) = .ok other) :
    disk.follow (reach place first) second = .ok other := by
  induction first generalizing place with
  | nil => exact followed
  | cons name first ih => exact ih (follow_cons_ok followed).2.2

theorem reach_of_follow {disk : Disk} {place other : Place} {names : List Bytes}
    (followed : disk.follow place names = .ok other) : reach place names = other := by
  rw [← List.append_nil names] at followed
  have arrived := follow_append_ok followed
  rw [follow] at arrived
  exact Except.ok.inj arrived

theorem follow_of_locate {disk : Disk} {path : Bytes} {place : Place}
    (located : disk.locate path = .ok place) :
    disk.follow (if isAbsolute (Bytes.untilNul path) then [] else disk.current)
      (names (Bytes.untilNul path)) = .ok place := by
  rw [locate] at located
  by_cases empty : Bytes.untilNul path = []
  · rw [if_pos empty] at located
    cases located
  · rw [if_neg empty] at located
    by_cases long : maxPathLength < (Bytes.untilNul path).length
    · rw [if_pos long] at located
      cases located
    · rwa [if_neg long] at located

theorem destination_of_locate {disk : Disk} {path : Bytes} {place : Place}
    (located : disk.locate path = .ok place) : disk.destination path = place :=
  reach_of_follow (follow_of_locate located)

/-- All that lies above an entry are directories. -/
theorem find?_of_append {disk : Disk} {place inner : Place} {entry : Entry}
    (found : disk.find? (place ++ inner) = some entry) (proper : inner ≠ []) :
    disk.find? place = some .directory := by
  induction inner generalizing place with
  | nil => exact absurd rfl proper
  | cons name inner ih =>
    have next : ∃ entry, disk.find? (place ++ [name]) = some entry := by
      cases inner with
      | nil => exact ⟨entry, found⟩
      | cons second inner =>
        rw [← List.singleton_append, ← List.append_assoc] at found
        exact ⟨.directory, ih found (List.cons_ne_nil _ _)⟩
    obtain ⟨entry, found⟩ := next
    have present : place ++ [name] ∈ disk.entries := by
      rw [Std.ExtTreeMap.mem_iff_isSome_getElem?]
      exact Option.isSome_iff_exists.mpr ⟨entry, found⟩
    exact disk.closed present

theorem find?_of_directory {disk : Disk} {place target : Place} (above : place <+: target)
    (directory : disk.find? target = some .directory) : disk.find? place = some .directory := by
  obtain ⟨inner, rfl⟩ := above
  by_cases same : inner = []
  · rwa [same, List.append_nil] at directory
  · exact find?_of_append directory same

/-- A directory is found without steps back wherever it is found with more directories around. -/
theorem follow_down {disk other : Disk} {place target : Place} {names : List Bytes}
    (down : Path.up ∉ names) (followed : other.follow place names = .ok target)
    (directory : disk.find? target = some .directory) : disk.follow place names = .ok target := by
  induction names generalizing place with
  | nil => exact followed
  | cons name names ih =>
    obtain ⟨_, short, rest⟩ := follow_cons_ok followed
    have arrived := reach_of_follow followed
    have above := reach_down place down
    rw [arrived] at above
    rw [follow_cons (find?_of_directory above directory) short]
    exact ih (fun member => down (List.mem_cons_of_mem _ member)) rest

/-- Whoever steps back from a place meets a directory. -/
theorem find?_dropLast {disk : Disk} {place : Place} (found : disk.find? place = some .directory) :
    disk.find? place.dropLast = some .directory := by
  by_cases root : place = []
  · rw [root]
    exact disk.rooted
  · rw [← List.dropLast_concat_getLast root] at found
    exact find?_of_append found (List.cons_ne_nil _ _)

/-- A way that leads to no directory ends with a proper name. -/
theorem proper_of_follow_concat {disk : Disk} {start place : Place} {front : List Bytes}
    {last : Bytes} (followed : disk.follow start (front ++ [last]) = .ok place)
    (free : disk.find? place ≠ some .directory) : last ≠ Path.here ∧ last ≠ Path.up := by
  obtain ⟨directory, _, arrived⟩ := follow_cons_ok (follow_append_ok followed)
  have arrived := Except.ok.inj arrived
  rw [step] at arrived
  constructor
  · intro still
    rw [if_pos still] at arrived
    exact free (arrived ▸ directory)
  · intro back
    rw [if_neg (by rw [back]; decide), if_pos back] at arrived
    exact free (arrived ▸ find?_dropLast directory)

end Unbundle.Disk
