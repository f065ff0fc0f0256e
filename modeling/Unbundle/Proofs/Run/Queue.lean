import Unbundle.Proofs.Disk.Arrival
import Unbundle.Run.Execution
import Mathlib.Data.List.Nodup

namespace Unbundle

open Ascii Disk Unbundle.Path

namespace Disk

variable {disk : Disk} {place : Place} {name : Bytes} {entry : Entry}

/-- An entry of the disk is listed by the name that is left of its place. -/
theorem listed_iff {other : Place} {listed : Bytes × Entry} :
    (match place.isPrefixOf? other with
      | some [name] => some (name, entry)
      | _ => none) = some listed ↔ other = place ++ [listed.1] ∧ entry = listed.2 := by
  constructor
  · intro found
    cases inside : place.isPrefixOf? other with
    | none =>
      rw [inside] at found
      cases found
    | some inner =>
      rw [inside] at found
      rw [List.isPrefixOf?_eq_some_iff_append_eq] at inside
      match inner, found, inside with
      | [_], rfl, rfl => exact ⟨rfl, rfl⟩
  · rintro ⟨rfl, rfl⟩
    have inside : place.isPrefixOf? (place ++ [listed.1]) = some [listed.1] :=
      List.isPrefixOf?_eq_some_iff_append_eq.mpr rfl
    rw [inside]

theorem mem_list : (name, entry) ∈ disk.list place ↔ disk.find? (place ++ [name]) = some entry := by
  rw [Disk.list, List.mem_filterMap]
  constructor
  · rintro ⟨⟨other, found⟩, member, listed⟩
    rw [toList, Std.ExtTreeMap.mem_toList_iff_getElem?_eq_some] at member
    obtain ⟨rfl, rfl⟩ := listed_iff.mp listed
    exact member
  · intro found
    refine ⟨(place ++ [name], entry), ?_, listed_iff.mpr ⟨rfl, rfl⟩⟩
    rw [toList, Std.ExtTreeMap.mem_toList_iff_getElem?_eq_some]
    exact found

theorem pairwise_list (disk : Disk) (place : Place) :
    (disk.list place).Pairwise fun first second => first.1 ≠ second.1 := by
  rw [Disk.list, toList]
  refine List.Pairwise.filterMap _ ?_ Std.ExtTreeMap.distinct_keys_toList
  rintro ⟨first, _⟩ ⟨second, _⟩ distinct listed found listed' found' same
  obtain ⟨whole, _⟩ := listed_iff.mp found
  obtain ⟨whole', _⟩ := listed_iff.mp found'
  rw [whole, whole', same] at distinct
  exact distinct (Std.LawfulEqCmp.compare_eq_iff_eq.mpr rfl)

end Disk

namespace Queue

variable {settings : Settings} {disk other : Disk} {directory path name : Bytes} {place : Place}
  {paths paths' : List Bytes} {keep : Bytes → Bool}

theorem pairwise_sortByName (paths : List Bytes) :
    (sortByName paths).Pairwise fun a b => lastSegment a ≤ lastSegment b := by
  have sorted := @List.pairwise_mergeSort Bytes (fun a b => decide (lastSegment a ≤ lastSegment b))
    (by
      intro a b c first second
      exact decide_eq_true (List.le_trans (of_decide_eq_true first) (of_decide_eq_true second)))
    (by
      intro a b
      rw [Bool.or_eq_true, decide_eq_true_eq, decide_eq_true_eq]
      exact List.le_total _ _) paths
  exact sorted.imp of_decide_eq_true

theorem perm_sortByName (paths : List Bytes) : (sortByName paths).Perm paths :=
  List.mergeSort_perm paths _

theorem sortByName_filter (same : paths'.Perm (paths.filter keep))
    (distinct : ∀ a ∈ paths, ∀ b ∈ paths, lastSegment a = lastSegment b → a = b) :
    sortByName paths' = (sortByName paths).filter keep := by
  refine List.Perm.eq_of_pairwise ?_ (pairwise_sortByName paths')
    ((pairwise_sortByName paths).filter keep) ?_
  · intro a b member member' first second
    have listed :=
      (List.mem_filter.mp ((same.mem_iff).mp ((perm_sortByName _).mem_iff.mp member))).1
    have listed' := (perm_sortByName _).mem_iff.mp (List.mem_filter.mp member').1
    exact distinct a listed b listed' (List.le_antisymm first second)
  · exact (perm_sortByName paths').trans
      (same.trans ((perm_sortByName paths).filter keep).symm)

private theorem packages_ofPaths_filter (same : paths'.Perm (paths.filter keep))
    (distinct : ∀ a ∈ paths, ∀ b ∈ paths, lastSegment a = lastSegment b → a = b) :
    (ofPaths settings paths').packages =
      (ofPaths settings paths).packages.filter (keep ·.path) := by
  have part (kind : Bytes → Bool) :
      sortByName (paths'.filter kind) = (sortByName (paths.filter kind)).filter keep := by
    apply sortByName_filter
    · rw [List.filter_comm]
      exact same.filter kind
    · intro a member b member'
      exact distinct a (List.mem_filter.mp member).1 b (List.mem_filter.mp member').1
  rw [packages, packages, ofPaths, ofPaths, List.filter_append, List.filter_map, List.filter_map,
    part, part]
  rfl

/-- The packages have the paths of the files that they were made from. -/
theorem perm_packages (settings : Settings) (paths : List Bytes) :
    ((ofPaths settings paths).packages.map Package.path).Perm paths := by
  rw [packages, ofPaths, List.map_append, List.map_map, List.map_map]
  have same (kind : PackageKind) (list : List Bytes) :
      list.map (Package.path ∘ fun path => ⟨path, kind⟩) = list := List.map_id list
  rw [same, same]
  exact ((perm_sortByName _).append (perm_sortByName _)).trans (List.filter_append_perm _ paths)

/-- The names of the files in a directory that have the container extension. -/
def packageNames (settings : Settings) (disk : Disk) (place : Place) : List Bytes :=
  (disk.list place).filterMap fun (name, entry) =>
    if entry ≠ .directory ∧ extension name = settings.containerExtension then some name else none

theorem ofDirectory_eq (located : disk.locate directory = .ok place)
    (state : disk.status directory = .ok .directory) :
    ofDirectory settings disk directory =
      .ok (ofPaths settings ((packageNames settings disk place).map (below directory))) := by
  rw [ofDirectory, state, located]
  rfl

private theorem mem_packageNames :
    name ∈ packageNames settings disk place ↔
      disk.file? (place ++ [name]) ≠ none ∧ extension name = settings.containerExtension := by
  rw [packageNames, List.mem_filterMap]
  constructor
  · rintro ⟨⟨listed, entry⟩, member, kept⟩
    dsimp only at kept
    rw [mem_list] at member
    by_cases package : entry ≠ .directory ∧ extension listed = settings.containerExtension
    · rw [if_pos package] at kept
      obtain rfl := Option.some.inj kept
      refine ⟨file?_ne_none.mpr ?_, package.2⟩
      cases entry with
      | directory => exact absurd rfl package.1
      | file content => exact ⟨content, member⟩
    · rw [if_neg package] at kept
      cases kept
  · rintro ⟨stands, named⟩
    obtain ⟨content, found⟩ := file?_ne_none.mp stands
    exact ⟨(name, .file content), mem_list.mpr found, if_pos ⟨nofun, named⟩⟩

private theorem nodup_packageNames (settings : Settings) (disk : Disk) (place : Place) :
    (packageNames settings disk place).Nodup := by
  refine List.Pairwise.filterMap _ ?_ (disk.pairwise_list place)
  rintro ⟨first, entry⟩ ⟨second, entry'⟩ distinct name kept name' kept'
  dsimp only at distinct kept kept'
  by_cases package : entry ≠ .directory ∧ extension first = settings.containerExtension
  · by_cases package' : entry' ≠ .directory ∧ extension second = settings.containerExtension
    · rw [if_pos package] at kept
      rw [if_pos package'] at kept'
      rwa [← Option.some.inj kept, ← Option.some.inj kept']
    · rw [if_neg package'] at kept'
      cases kept'
  · rw [if_neg package] at kept
    cases kept

/-- The queue of a directory has the files with the container extension and no others. -/
theorem mem_packages_ofDirectory (located : disk.locate directory = .ok place)
    (state : disk.status directory = .ok .directory) :
    ∃ queue, ofDirectory settings disk directory = .ok queue ∧
      ∀ path, (∃ package ∈ queue.packages, package.path = path) ↔
        ∃ name, disk.file? (place ++ [name]) ≠ none ∧
          extension name = settings.containerExtension ∧ below directory name = path := by
  refine ⟨_, ofDirectory_eq located state, ?_⟩
  intro path
  rw [← List.mem_map, (perm_packages settings _).mem_iff, List.mem_map]
  constructor
  · rintro ⟨name, member, same⟩
    obtain ⟨stands, named⟩ := mem_packageNames.mp member
    exact ⟨name, stands, named, same⟩
  · rintro ⟨name, stands, named, same⟩
    exact ⟨name, mem_packageNames.mpr ⟨stands, named⟩, same⟩

theorem lastSegment_below (directory : Bytes) (plain : slash ∉ name) :
    lastSegment (below directory name) = name := by
  have relative : name.head? ≠ some slash := fun absolute =>
    plain (List.mem_of_mem_head? absolute)
  obtain ⟨ending, whole, ends, _⟩ := below_eq directory relative
  rw [whole, lastSegment_append_plain _ plain, ends, List.nil_append]

/-- No two packages of a directory have the same file name. -/
theorem distinct_packages
    (plain : ∀ name, disk.file? (place ++ [name]) ≠ none → slash ∉ name) :
    ((packageNames settings disk place).map (below directory)).Pairwise fun a b =>
      lastSegment a ≠ lastSegment b := by
  rw [List.pairwise_map]
  refine (nodup_packageNames settings disk place).imp_of_mem ?_
  intro name name' member member' different same
  rw [lastSegment_below directory (plain name (mem_packageNames.mp member).1),
    lastSegment_below directory (plain name' (mem_packageNames.mp member').1)] at same
  exact different same

theorem nodup_packages {queue : Queue} (located : disk.locate directory = .ok place)
    (state : disk.status directory = .ok .directory)
    (plain : ∀ name, disk.file? (place ++ [name]) ≠ none → slash ∉ name)
    (listed : ofDirectory settings disk directory = .ok queue) :
    (queue.packages.map Package.path).Nodup := by
  rw [ofDirectory_eq located state] at listed
  cases listed
  rw [(perm_packages settings _).nodup_iff]
  exact (distinct_packages plain).imp fun different same => different (congrArg lastSegment same)

/-- Where a directory lacks some packages of another one, its queue is that of the other without
them. -/
theorem packages_filter (located : disk.locate directory = .ok place)
    (state : disk.status directory = .ok .directory)
    (located' : other.locate directory = .ok place)
    (state' : other.status directory = .ok .directory)
    (plain : ∀ name, disk.file? (place ++ [name]) ≠ none → slash ∉ name)
    (kept : ∀ name, other.file? (place ++ [name]) ≠ none ↔
      disk.file? (place ++ [name]) ≠ none ∧ keep (below directory name) = true) :
    ∃ queue queue', ofDirectory settings disk directory = .ok queue ∧
      ofDirectory settings other directory = .ok queue' ∧
      queue'.packages = queue.packages.filter (keep ·.path) := by
  refine ⟨_, _, ofDirectory_eq located state, ofDirectory_eq located' state', ?_⟩
  apply packages_ofPaths_filter
  · rw [List.filter_map]
    apply List.Perm.map
    rw [List.perm_ext_iff_of_nodup (nodup_packageNames settings other place)
      ((nodup_packageNames settings disk place).filter _)]
    intro name
    rw [List.mem_filter, mem_packageNames, mem_packageNames, kept, and_right_comm]
    rfl
  · intro a member b member' same
    obtain ⟨name, listed, rfl⟩ := List.mem_map.mp member
    obtain ⟨name', listed', rfl⟩ := List.mem_map.mp member'
    rw [lastSegment_below directory (plain name (mem_packageNames.mp listed).1),
      lastSegment_below directory (plain name' (mem_packageNames.mp listed').1)] at same
    rw [same]

end Queue

namespace Workspace

variable {space : Workspace} {input : Bytes}

/-- Whether the files in the input directory have names that a file can have. -/
def Named (space : Workspace) (input : Bytes) : Prop :=
  ∀ name, space.disk.file? (space.disk.destination input ++ [name]) ≠ none →
    FileName name ∧ nul ∉ name

theorem named_of_list
    (listed : ∀ entry ∈ space.disk.list (space.disk.destination input),
      FileName entry.1 ∧ nul ∉ entry.1) : space.Named input := by
  intro name stands
  obtain ⟨content, found⟩ := file?_ne_none.mp stands
  exact listed (name, .file content) (mem_list.mpr found)

theorem below_inj (named : space.Named input) {name other : Bytes}
    (stands : space.disk.file? (space.disk.destination input ++ [name]) ≠ none)
    (stands' : space.disk.file? (space.disk.destination input ++ [other]) ≠ none)
    (same : below input name = below input other) : name = other := by
  have last := congrArg lastSegment same
  rwa [Queue.lastSegment_below input (named name stands).1.plain,
    Queue.lastSegment_below input (named other stands').1.plain] at last

theorem findPackages_ofFile {content : Bytes} (source : space.disk.status input = .ok (.file content)) :
    space.findPackages input = .ok ⟨false, .ofPaths space.context.settings [input]⟩ := by
  rw [findPackages, source]

theorem findPackages_ofDirectory {queue : Queue} (source : space.disk.status input = .ok .directory)
    (listed : Queue.ofDirectory space.context.settings space.disk input = .ok queue) :
    space.findPackages input = .ok ⟨true, queue⟩ := by
  rw [findPackages, source]
  dsimp only
  rw [listed]

/-- Packages are found in a file or in a directory. -/
theorem found_cases {found : Found} (finds : space.findPackages input = .ok found) :
    (∃ content, space.disk.status input = .ok (.file content) ∧
        found = ⟨false, .ofPaths space.context.settings [input]⟩) ∨
      space.disk.status input = .ok .directory ∧ ∃ queue,
        Queue.ofDirectory space.context.settings space.disk input = .ok queue ∧
          found = ⟨true, queue⟩ := by
  rw [findPackages] at finds
  cases source : space.disk.status input with
  | error problem =>
    rw [source] at finds
    cases finds
  | ok entry =>
    rw [source] at finds
    cases entry with
    | file content =>
      cases finds
      exact .inl ⟨content, rfl, rfl⟩
    | directory =>
      dsimp only at finds
      cases listed : Queue.ofDirectory space.context.settings space.disk input with
      | error failure =>
        rw [listed] at finds
        cases finds
      | ok queue =>
        rw [listed] at finds
        cases finds
        exact .inr ⟨rfl, queue, rfl, rfl⟩

/-- The packages of a directory are found under their paths, each once. -/
theorem findPackages_directory (source : space.disk.status input = .ok .directory)
    (named : space.Named input) :
    ∃ queue, space.findPackages input = .ok ⟨true, queue⟩ ∧
      (queue.packages.map Package.path).Nodup ∧
      ∀ package ∈ queue.packages, ∃ name,
        space.disk.file? (space.disk.destination input ++ [name]) ≠ none ∧
          below input name = package.path := by
  obtain ⟨place, located, _⟩ := status_ok source
  obtain rfl := destination_of_locate located
  obtain ⟨queue, listed, members⟩ :=
    @Queue.mem_packages_ofDirectory space.context.settings _ _ _ located source
  refine ⟨queue, findPackages_ofDirectory source listed, ?_, ?_⟩
  · exact Queue.nodup_packages located source (fun name stands => (named name stands).1.plain)
      listed
  · intro package member
    obtain ⟨name, stands, _, same⟩ := (members package.path).mp ⟨package, member, rfl⟩
    exact ⟨name, stands, same⟩

/-- A package is the input itself, which is a file then, or named below it, which is a directory. -/
theorem package_cases {found : Found} (finds : space.findPackages input = .ok found)
    (named : space.Named input) {package : Package} (member : package ∈ found.queue.packages) :
    (package.path = input ∧ ∃ content, space.disk.status input = .ok (.file content)) ∨
      space.disk.status input = .ok .directory ∧
        ∃ name, FileName name ∧ nul ∉ name ∧ below input name = package.path := by
  rcases found_cases finds with ⟨content, source, rfl⟩ | ⟨source, _, _, _⟩
  · left
    have listed := (Queue.perm_packages space.context.settings [input]).mem_iff.mp
      (List.mem_map_of_mem member)
    exact ⟨List.mem_singleton.mp listed, content, source⟩
  · right
    obtain ⟨queue, found', _, origin⟩ := findPackages_directory source named
    obtain rfl := Except.ok.inj (found'.symm.trans finds)
    obtain ⟨name, stands, led⟩ := origin package member
    obtain ⟨fileName, plain⟩ := named name stands
    exact ⟨source, name, fileName, plain, led⟩

/-- A package with a file is the input itself, or an entry of it. -/
theorem origin_of_package {found : Found} (finds : space.findPackages input = .ok found)
    (named : space.Named input) {package : Package} (member : package ∈ found.queue.packages)
    (stands : space.disk.file? (space.disk.destination package.path) ≠ none) :
    package.path = input ∨ ∃ name, package.path = below input name ∧
      space.disk.destination package.path = space.disk.destination input ++ [name] := by
  rcases package_cases finds named member with ⟨same, _⟩ | ⟨source, name, fileName, plain, led⟩
  · exact .inl same
  · right
    refine ⟨name, led.symm, ?_⟩
    rw [← led] at stands ⊢
    refine (space.disk.destination_below fileName.nonempty ⟨fileName.plain, plain⟩
      fileName.proper).resolve_left ?_
    intro same
    obtain ⟨place, located, directory⟩ := status_ok source
    obtain rfl := destination_of_locate located
    rw [same, file?, directory] at stands
    exact stands rfl

end Workspace

end Unbundle
