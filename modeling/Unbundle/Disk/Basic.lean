import Unbundle.Bytes
import Std.Data.ExtTreeMap

/-!
A disk: files and directories by their place. Every entry but the root lies in a directory, which
all operations keep. Main statements: what each operation does to the entry at every place.
-/

namespace Unbundle

/-- The names that lead from the root to an entry. -/
abbrev Place := List Bytes

namespace Disk

inductive Entry where
  | directory
  | file (content : Bytes)
  deriving DecidableEq, Repr

end Disk

/-- `current` is the directory that relative paths start from. -/
structure Disk where
  entries : Std.ExtTreeMap Place Disk.Entry
  current : Place
  rooted : entries[([] : Place)]? = some .directory
  closed : ∀ {place : Place} {name : Bytes},
    place ++ [name] ∈ entries → entries[place]? = some .directory

namespace Disk

def find? (disk : Disk) (place : Place) : Option Entry := disk.entries[place]?

def file? (disk : Disk) (place : Place) : Option Bytes :=
  match disk.find? place with
  | some (.file content) => some content
  | _ => none

def isDirectory (disk : Disk) (place : Place) : Bool := disk.find? place = some .directory

@[ext]
theorem ext {disk other : Disk} (current : disk.current = other.current)
    (entries : ∀ place, disk.find? place = other.find? place) : disk = other := by
  obtain ⟨map, here, _, _⟩ := disk
  obtain ⟨map', here', _, _⟩ := other
  have same : map = map' := Std.ExtTreeMap.ext_getElem? entries
  cases same; cases current; rfl

/-- Just the root. -/
def empty : Disk where
  entries := (∅ : Std.ExtTreeMap Place Entry).insert [] .directory
  current := []
  rooted := by simp
  closed := by
    intro place name present
    simp at present

instance : Inhabited Disk := ⟨empty⟩

/-- The disk with an entry of a directory added or replaced. A directory keeps its place and what
it holds. -/
def add (disk : Disk) (place : Place) (name : Bytes) (entry : Entry)
    (inside : disk.find? place = some .directory)
    (free : disk.find? (place ++ [name]) ≠ some .directory) : Disk where
  entries := disk.entries.insert (place ++ [name]) entry
  current := disk.current
  rooted := by
    simpa [Std.ExtTreeMap.getElem?_insert] using disk.rooted
  closed := by
    intro parent child present
    have other : parent ≠ place ++ [name] := by
      rintro rfl
      simp only [Std.ExtTreeMap.mem_insert, Std.LawfulEqCmp.compare_eq_iff_eq] at present
      rcases present with same | present
      · have := congrArg List.length same; simp at this
      · exact free (disk.closed present)
    rw [Std.ExtTreeMap.getElem?_insert]
    simp only [Std.LawfulEqCmp.compare_eq_iff_eq, other.symm, if_false]
    simp only [Std.ExtTreeMap.mem_insert, Std.LawfulEqCmp.compare_eq_iff_eq] at present
    rcases present with same | present
    · obtain ⟨rfl, _⟩ := List.append_inj' same rfl
      exact inside
    · exact disk.closed present

theorem find?_add {disk : Disk} {place : Place} {name : Bytes} {entry : Entry} {inside free}
    (other : Place) : (disk.add place name entry inside free).find? other =
      if other = place ++ [name] then some entry else disk.find? other := by
  simp only [find?, add, Std.ExtTreeMap.getElem?_insert, Std.LawfulEqCmp.compare_eq_iff_eq,
    eq_comm (a := other)]

/-- The disk with only those entries left that the test keeps. -/
private def keep (disk : Disk) (test : Place → Bool) (root : test [] = true)
    (up : ∀ (place : Place) (name : Bytes), test (place ++ [name]) = true → test place = true) :
    Disk where
  entries := disk.entries.filter fun place _ => test place
  current := disk.current
  rooted := by
    rw [Std.ExtTreeMap.getElem?_filter', disk.rooted]; simp [root]
  closed := by
    intro place name present
    rw [Std.ExtTreeMap.mem_iff_isSome_getElem?, Std.ExtTreeMap.getElem?_filter'] at present
    obtain ⟨entry, found⟩ := Option.isSome_iff_exists.mp present
    obtain ⟨old, kept⟩ := Option.filter_eq_some_iff.mp found
    have inside := @disk.closed place name
      (by rw [Std.ExtTreeMap.mem_iff_isSome_getElem?, old]; rfl)
    rw [Std.ExtTreeMap.getElem?_filter', inside]
    simp [up _ _ kept]

private theorem find?_keep (disk : Disk) (test : Place → Bool) (root : test [] = true)
    (up : ∀ (place : Place) (name : Bytes), test (place ++ [name]) = true → test place = true)
    (place : Place) :
    (disk.keep test root up).find? place = if test place then disk.find? place else none := by
  simp only [find?, keep, Std.ExtTreeMap.getElem?_filter']
  cases disk.entries[place]? <;> simp [Option.filter]

/-- The disk without all that lies below a place. -/
def clear (disk : Disk) (place : Place) : Disk :=
  disk.keep (fun other => ¬ (other ≠ place ∧ place <+: other))
    (by cases place <;> simp)
    (by
      intro parent name kept
      simp only [decide_eq_true_eq, not_and] at kept ⊢
      intro other inside
      refine kept ?_ (inside.trans (List.prefix_append _ _))
      rintro rfl
      have := inside.length_le
      simp only [List.length_append, List.length_cons, List.length_nil] at this
      omega)

theorem find?_clear (disk : Disk) (place other : Place) :
    (disk.clear place).find? other =
      if other ≠ place ∧ place <+: other then none else disk.find? other := by
  refine (find?_keep disk _ _ _ other).trans ?_
  by_cases inside : other ≠ place ∧ place <+: other
  · simp [inside]
  · rw [if_pos (decide_eq_true inside), if_neg inside]

/-- The disk without an entry and all that lies below it; the root stays. -/
def remove (disk : Disk) (place : Place) (proper : place ≠ []) : Disk :=
  disk.keep (fun other => ¬ place <+: other)
    (by simpa using proper)
    (by
      intro parent name kept
      simp only [decide_eq_true_eq] at kept ⊢
      exact fun inside => kept (inside.trans (List.prefix_append _ _)))

theorem find?_remove (disk : Disk) (place other : Place) (proper : place ≠ []) :
    (disk.remove place proper).find? other =
      if place <+: other then none else disk.find? other := by
  refine (find?_keep disk _ _ _ other).trans ?_
  by_cases inside : place <+: other
  · simp [inside]
  · rw [if_pos (decide_eq_true inside), if_neg inside]

/-- All entries by their place, a directory before what it holds. -/
def toList (disk : Disk) : List (Place × Entry) := disk.entries.toList

/-- The names in a directory with what they name, in the order of their bytes. -/
def list (disk : Disk) (place : Place) : List (Bytes × Entry) :=
  disk.toList.filterMap fun (other, entry) =>
    match place.isPrefixOf? other with
    | some [name] => some (name, entry)
    | _ => none

/-- All entries below a directory, by the names that lead there from it. -/
def below (disk : Disk) (place : Place) : List (Place × Entry) :=
  disk.toList.filterMap fun (other, entry) =>
    match place.isPrefixOf? other with
    | none | some [] => none
    | some inner => some (inner, entry)

end Disk

end Unbundle
