import Unbundle.Proofs.Answer
import Unbundle.Proofs.Disk.Growth
import Unbundle.Proofs.Disk.Descent

namespace Unbundle.Disk

open Ascii Unbundle.Path

/-- Whether a path passes a place on its way, or leads there. -/
def Passes (disk : Disk) (path : Bytes) (place : Place) : Prop :=
  ∃ front, front <+: names (Bytes.untilNul path) ∧
    reach (if isAbsolute (Bytes.untilNul path) then [] else disk.current) front = place

/-- A path below a directory passes what the directory does, and then goes on from there. -/
theorem passes_below {disk : Disk} {root path : Bytes} {place : Place}
    (relative : path.head? ≠ some slash) (passes : disk.Passes (Path.below root path) place) :
    disk.Passes root place ∨ ∃ front, front <+: names (Bytes.untilNul path) ∧
      reach (disk.destination root) front = place := by
  obtain ⟨front, part, rfl⟩ := passes
  by_cases cut : nul ∈ root
  · rw [untilNul_below cut relative] at part ⊢
    exact .inl ⟨front, part, rfl⟩
  obtain ⟨seen, absolute⟩ := seen_below cut relative
  rw [seen] at part
  rw [absolute]
  have same := Bytes.untilNul_eq_self cut
  rcases List.prefix_or_prefix_of_prefix part (List.prefix_append _ _) with short | ⟨behind, whole⟩
  · exact .inl ⟨front, by rwa [same], by rw [same]⟩
  · right
    rw [← whole, List.prefix_append_right_inj] at part
    refine ⟨behind, part, ?_⟩
    rw [← whole, reach_append, destination, same]

/-- A canonical path below a directory passes what the directory does, and places below it. Only a
NUL behind two dots at its start leads it to the place right above. -/
theorem passes_canonical {disk : Disk} {root path : Bytes} {place : Place} (canonical : Canonical path)
    (passes : disk.Passes (Path.below root path) place) :
    disk.Passes root place ∨ disk.destination root <+: place ∨
      place = (disk.destination root).dropLast := by
  rcases passes_below canonical.head?_ne_slash passes with passes | ⟨behind, part, rfl⟩
  · exact .inl passes
  right
  obtain ⟨inner, last, components, single, proper⟩ := names_untilNul canonical
  rw [components] at part
  have down {names : List Bytes} (part : names <+: inner) :
      reach (disk.destination root) names = disk.destination root ++ names :=
    reach_proper _ fun name member => proper name (part.subset member)
  rcases List.prefix_or_prefix_of_prefix part (List.prefix_append _ _) with short | ⟨final, rfl⟩
  · rw [down short]
    exact .inl (List.prefix_append _ _)
  rw [List.prefix_append_right_inj] at part
  rw [reach_append, down List.prefix_rfl]
  have few : final.length ≤ 1 := part.length_le.trans single
  match final with
  | [] => exact .inl (List.prefix_append _ _)
  | [name] =>
    rw [reach, List.foldl_cons, List.foldl_nil, step]
    by_cases still : name = here
    · rw [if_pos still]
      exact .inl (List.prefix_append _ _)
    by_cases back : name = up
    · rw [if_neg still, if_pos back]
      by_cases top : inner = []
      · rw [top, List.append_nil]
        exact .inr rfl
      · rw [List.dropLast_append_of_ne_nil top]
        exact .inl (List.prefix_append _ _)
    · rw [if_neg still, if_neg back, List.append_assoc]
      exact .inl (List.prefix_append _ _)
  | _ :: _ :: _ =>
    rw [List.length_cons, List.length_cons] at few
    omega

/-- A text that stops somewhere on the way of a path. -/
structure Above (text path : Bytes) : Prop where
  front : text <+: path
  absolute : isAbsolute text = isAbsolute path
  names : Disk.names text <+: Disk.names path

theorem Above.refl (path : Bytes) : Above path path := ⟨List.prefix_rfl, rfl, List.prefix_rfl⟩

private theorem lastSegment_dropTrailing (path : Bytes) :
    lastSegment (dropTrailing (· ≠ slash) path) = [] := by
  rw [dropTrailing]
  have stops := List.head?_dropWhile_not (fun b : UInt8 => decide (b ≠ slash)) path.reverse
  cases kept : path.reverse.dropWhile fun b => decide (b ≠ slash) with
  | nil => rfl
  | cons b rest =>
    rw [kept] at stops
    obtain rfl : b = slash := by simpa using stops
    rw [List.reverse_cons]
    exact lastSegment_concat_slash _

/-- A path is the text of its directory, slashes where it needs them, and its last segment. -/
theorem parent_split (path : Bytes) :
    ∃ ending, path = parent path ++ ending ++ lastSegment path ∧
      lastSegment (parent path ++ ending) = [] ∧ (∀ b ∈ ending, b = slash) ∧
      isAbsolute (parent path) = isAbsolute path := by
  obtain ⟨last, whole, others⟩ := dropTrailing_eq (· ≠ slash) path
  obtain ⟨ending, stem, slashes⟩ :=
    dropTrailing_eq (· = slash) (dropTrailing (· ≠ slash) path)
  have slashes : ∀ b ∈ ending, b = slash := fun b member => of_decide_eq_true (slashes b member)
  have plain : slash ∉ last := fun member => of_decide_eq_true (others slash member) rfl
  have ends := lastSegment_dropTrailing path
  have final : lastSegment path = last := by
    conv => lhs; rw [whole]
    rw [lastSegment_append_plain _ plain, ends, List.nil_append]
  rw [parent, final]
  generalize dropTrailing (· = slash) (dropTrailing (· ≠ slash) path) = before at stem
  rw [stem] at whole ends
  by_cases top : before = [] ∧ path.head? = some slash
  · rw [if_pos top]
    rw [top.1, List.nil_append] at whole ends
    cases ending with
    | nil =>
      have first := top.2
      rw [whole, List.nil_append] at first
      exact absurd (List.mem_of_mem_head? first) plain
    | cons b rest =>
      obtain ⟨rfl, others⟩ := List.forall_mem_cons.mp slashes
      refine ⟨rest, whole, ends, others, ?_⟩
      rw [whole]
      rfl
  · rw [if_neg top]
    refine ⟨ending, whole, ends, slashes, ?_⟩
    cases before with
    | nil =>
      have relative : path.head? ≠ some slash := fun absolute => top ⟨rfl, absolute⟩
      rw [isAbsolute, isAbsolute, decide_eq_false relative]
      rfl
    | cons b before =>
      rw [whole]
      rfl

/-- A text with a last segment behind it lies on the way of the whole. -/
theorem Above.stem {stem ending : Bytes} (last : Bytes) (ends : lastSegment (stem ++ ending) = [])
    (slashes : ∀ b ∈ ending, b = slash)
    (absolute : isAbsolute stem = isAbsolute (stem ++ ending ++ last)) :
    Above stem (stem ++ ending ++ last) := by
  refine ⟨⟨ending ++ last, by rw [List.append_assoc]⟩, absolute, ?_⟩
  rw [names_append ends, names_append_slashes stem slashes]
  exact List.prefix_append _ _

/-- Where a NUL cuts the directory of a path, the system sees no more of the path. -/
theorem untilNul_of_cut {path : Bytes} (cut : nul ∈ parent path) :
    Bytes.untilNul path = Bytes.untilNul (parent path) := by
  obtain ⟨ending, whole, _⟩ := parent_split path
  conv => lhs; rw [whole, List.append_assoc, Bytes.untilNul_cut cut]

/-- Elsewhere it sees the directory, slashes where it needs them, and what is left of the last
segment. -/
theorem untilNul_of_uncut {path : Bytes} (uncut : nul ∉ parent path) :
    ∃ ending, Bytes.untilNul path = parent path ++ ending ++ Bytes.untilNul (lastSegment path) ∧
      lastSegment (parent path ++ ending) = [] ∧ ∀ b ∈ ending, b = slash := by
  obtain ⟨ending, whole, ends, slashes, _⟩ := parent_split path
  refine ⟨ending, ?_, ends, slashes⟩
  conv => lhs; rw [whole]
  apply Bytes.untilNul_plain
  rw [List.mem_append, not_or]
  exact ⟨uncut, fun member => absurd (slashes nul member) (by decide)⟩

/-- The same of what the system sees of both, wherever a NUL cuts the path. -/
theorem parent_seen (path : Bytes) :
    Above (Bytes.untilNul (parent path)) (Bytes.untilNul path) := by
  by_cases cut : nul ∈ parent path
  · rw [untilNul_of_cut cut]
    exact .refl _
  · obtain ⟨_, _, _, _, absolute⟩ := parent_split path
    obtain ⟨ending, seen, ends, slashes⟩ := untilNul_of_uncut cut
    rw [Bytes.untilNul_eq_self cut, seen]
    apply Above.stem _ ends slashes
    cases stem : parent path with
    | cons b rest => rfl
    | nil =>
      rw [stem] at absolute seen
      rw [← seen, isAbsolute, decide_eq_false (by simp), eq_comm, isAbsolute, decide_eq_false_iff_not]
      intro starts
      obtain ⟨inner, first⟩ := List.head?_eq_some_iff.mp starts
      obtain ⟨behind, rest⟩ := Bytes.untilNul_prefix path
      rw [first] at rest
      rw [← rest] at absolute
      cases absolute

/-- A path names what its directory does, and at most one thing behind it. -/
theorem names_parent (path : Bytes) :
    ∃ last, Disk.names (Bytes.untilNul path) = Disk.names (Bytes.untilNul (parent path)) ++ last ∧
      last.length ≤ 1 := by
  by_cases cut : nul ∈ parent path
  · exact ⟨[], by rw [untilNul_of_cut cut, List.append_nil], Nat.zero_le _⟩
  obtain ⟨ending, seen, ends, slashes⟩ := untilNul_of_uncut cut
  refine ⟨Disk.names (Bytes.untilNul (lastSegment path)), ?_, ?_⟩
  · rw [seen, names_append ends, names_append_slashes _ slashes, Bytes.untilNul_eq_self cut]
  · by_cases none : Bytes.untilNul (lastSegment path) = []
    · rw [none]
      exact Nat.zero_le _
    · have plain : slash ∉ Bytes.untilNul (lastSegment path) := fun member =>
        slash_notMem (lastSegment_mem path) ((Bytes.untilNul_prefix _).subset member)
      rw [names_plain none plain]
      exact Nat.le_refl _

/-- What passes from a path to its directory holds of all directories that it lies in. -/
theorem ancestors_induction {motive : Bytes → Prop}
    (up : ∀ path, motive path → motive (parent path)) {text path : Bytes}
    (member : text ∈ ancestors path) (start : motive path) : motive text := by
  fun_induction ancestors path with
  | case1 path shorter ih =>
    rcases List.mem_cons.mp member with rfl | member
    · exact start
    · exact ih member (up path start)
  | case2 path =>
    rwa [List.mem_singleton.mp member]

theorem withoutSlash_cases (path : Bytes) :
    withoutSlash path = path ∨ withoutSlash path = parent path := by
  rw [withoutSlash]
  by_cases ends : lastSegment path = [] ∧ Disk.names path ≠ []
  · rw [if_pos ends]
    exact .inr rfl
  · rw [if_neg ends]
    exact .inl rfl

/-- A path passes all that its directory does. -/
theorem passes_of_parent {disk : Disk} {path : Bytes} {place : Place}
    (passes : disk.Passes (parent path) place) : disk.Passes path place := by
  have seen := parent_seen path
  obtain ⟨front, part, rfl⟩ := passes
  exact ⟨front, part.trans seen.names, by rw [seen.absolute]⟩

/-- A path adds itself to the directories that it lies in, unless it stays or steps back. -/
def own (path : Bytes) : List Bytes :=
  if lastSegment path = here ∨ lastSegment path = up then [] else [path]

/-- Whether there is a directory to look at before a path. -/
def Further (path : Bytes) : Prop := (parent path).length < path.length ∧ parent path ≠ []

instance (path : Bytes) : Decidable (Further path) := inferInstanceAs (Decidable (_ ∧ _))

/-- The directories that a path lacks, outermost first, however many they are. -/
def missing (disk : Disk) (path : Bytes) : Except Problem (List Bytes) :=
  if _further : Further path then
    match disk.status (parent path) with
    | .ok .directory => .ok (own path)
    | .ok (.file _) => .error .notDirectory
    | .error problem =>
      if problem.isAbsence then (disk.missing (parent path)).map (· ++ own path)
      else .error problem
  else .ok (own path)
termination_by path.length
decreasing_by exact _further.1

theorem ancestors_cons (path : Bytes) : ∃ outer, ancestors path = path :: outer := by
  rw [ancestors]
  by_cases shorter : (parent path).length < path.length
  · rw [dif_pos shorter]
    exact ⟨_, rfl⟩
  · rw [dif_neg shorter]
    exact ⟨_, rfl⟩

private theorem missingDirectories_path (disk : Disk) (made outer : List Bytes) (path : Bytes) :
    disk.missingDirectories made (path :: outer) =
      if maxDepth < (own path ++ made).length then .error .nameTooLong
      else
        match outer with
        | [] => .ok (own path ++ made)
        | next :: _ =>
          if next = [] then .ok (own path ++ made)
          else
            match disk.status next with
            | .ok .directory => .ok (own path ++ made)
            | .ok (.file _) => .error .notDirectory
            | .error problem =>
              if problem.isAbsence then disk.missingDirectories (own path ++ made) outer
              else .error problem := by
  have grew : (if lastSegment path = here ∨ lastSegment path = up then made else path :: made) =
      own path ++ made := by
    rw [own]
    by_cases idle : lastSegment path = here ∨ lastSegment path = up
    · rw [if_pos idle, if_pos idle]
      rfl
    · rw [if_neg idle, if_neg idle]
      rfl
  rw [missingDirectories.eq_def]
  dsimp only
  rewrite [grew]
  rfl

private theorem search_ends {made own paths : List Bytes} :
    (if maxDepth < (own ++ made).length then .error .nameTooLong else .ok (own ++ made)) =
        (.ok paths : Except Problem (List Bytes)) ↔
      ∃ lacking, (.ok own : Except Problem (List Bytes)) = .ok lacking ∧ paths = lacking ++ made ∧
        paths.length ≤ maxDepth := by
  rw [check_eq_ok, Nat.not_lt]
  constructor
  · rintro ⟨few, same⟩
    cases same
    exact ⟨own, rfl, rfl, few⟩
  · rintro ⟨lacking, same, rfl, few⟩
    cases same
    exact ⟨few, rfl⟩

private theorem search_fails {made own paths : List Bytes} {problem : Problem} :
    (if maxDepth < (own ++ made).length then .error .nameTooLong else .error problem) =
        (.ok paths : Except Problem (List Bytes)) ↔
      ∃ lacking, (.error problem : Except Problem (List Bytes)) = .ok lacking ∧
        paths = lacking ++ made ∧ paths.length ≤ maxDepth := by
  rw [check_eq_ok]
  constructor
  · rintro ⟨_, impossible⟩
    cases impossible
  · rintro ⟨_, impossible, _⟩
    cases impossible

/-- The search from a path on finds the directories that it lacks, if they are not too many. -/
theorem missingDirectories_ancestors {disk : Disk} {made paths : List Bytes} {path : Bytes} :
    disk.missingDirectories made (ancestors path) = .ok paths ↔
      ∃ lacking, disk.missing path = .ok lacking ∧ paths = lacking ++ made ∧
        paths.length ≤ maxDepth := by
  fun_induction missing disk path generalizing made with
  | case1 path further state =>
    obtain ⟨others, next⟩ := ancestors_cons (parent path)
    rw [ancestors, dif_pos further.1, next, missingDirectories_path]
    dsimp only
    rw [if_neg further.2, state]
    exact search_ends
  | case2 path further content state =>
    obtain ⟨others, next⟩ := ancestors_cons (parent path)
    rw [ancestors, dif_pos further.1, next, missingDirectories_path]
    dsimp only
    rw [if_neg further.2, state]
    exact search_fails
  | case3 path further problem state absent ih =>
    obtain ⟨others, next⟩ := ancestors_cons (parent path)
    have onward : disk.missingDirectories (own path ++ made) (ancestors (parent path)) = .ok paths ↔
        ∃ lacking, disk.missing (parent path) = .ok lacking ∧
          paths = lacking ++ (own path ++ made) ∧ paths.length ≤ maxDepth := ih
    rw [next] at onward
    rw [ancestors, dif_pos further.1, next, missingDirectories_path]
    dsimp only
    rw [if_neg further.2, state]
    dsimp only
    rw [if_pos absent, check_eq_ok, Nat.not_lt, onward]
    constructor
    · rintro ⟨_, lacking, found, rfl, few⟩
      exact ⟨lacking ++ own path, map_eq_ok.mpr ⟨lacking, found, rfl⟩,
        by rw [List.append_assoc], few⟩
    · rintro ⟨_, whole, rfl, few⟩
      obtain ⟨lacking, found, rfl⟩ := map_eq_ok.mp whole
      rw [List.append_assoc] at few ⊢
      refine ⟨?_, lacking, found, rfl, few⟩
      rw [List.length_append] at few
      omega
  | case4 path further problem state present =>
    obtain ⟨others, next⟩ := ancestors_cons (parent path)
    rw [ancestors, dif_pos further.1, next, missingDirectories_path]
    dsimp only
    rw [if_neg further.2, state]
    dsimp only
    rw [if_neg present]
    exact search_fails
  | case5 path last =>
    by_cases shorter : (parent path).length < path.length
    · have top : parent path = [] := Decidable.not_not.mp fun more => last ⟨shorter, more⟩
      obtain ⟨others, next⟩ := ancestors_cons (parent path)
      rw [ancestors, dif_pos shorter, next, missingDirectories_path]
      dsimp only
      rw [if_pos top]
      exact search_ends
    · rw [ancestors, dif_neg shorter, missingDirectories_path]
      exact search_ends

/-- A path lacks itself at most, or itself and what its directory lacks. -/
theorem missing_cases {disk : Disk} {path : Bytes} {paths : List Bytes}
    (found : disk.missing path = .ok paths) :
    paths = own path ∨ ∃ lacking, disk.missing (parent path) = .ok lacking ∧
      paths = lacking ++ own path := by
  rw [missing] at found
  by_cases further : Further path
  · rw [dif_pos further] at found
    cases state : disk.status (parent path) with
    | ok entry =>
      rw [state] at found
      cases entry with
      | directory =>
        cases found
        exact .inl rfl
      | file content => cases found
    | error problem =>
      rw [state] at found
      dsimp only at found
      by_cases absent : problem.isAbsence = true
      · rw [if_pos absent] at found
        obtain ⟨lacking, above, same⟩ := map_eq_ok.mp found
        exact .inr ⟨lacking, above, same.symm⟩
      · rw [if_neg absent] at found
        cases found
  · rw [dif_neg further] at found
    cases found
    exact .inl rfl

private theorem mem_own {text path : Bytes} (member : text ∈ own path) : text = path := by
  rw [own] at member
  by_cases idle : lastSegment path = here ∨ lastSegment path = up
  · rw [if_pos idle] at member
    cases member
  · rw [if_neg idle] at member
    exact List.mem_singleton.mp member

theorem missing_induction {disk : Disk} {motive : Bytes → Prop}
    (up : ∀ path, motive path → motive (parent path)) {text path : Bytes} {paths : List Bytes}
    (found : disk.missing path = .ok paths) (member : text ∈ paths) (start : motive path) :
    motive text := by
  fun_induction missing disk path generalizing paths with
  | case1 path | case5 path =>
    cases found
    rwa [mem_own member]
  | case2 | case4 => cases found
  | case3 path further problem state absent ih =>
    obtain ⟨lacking, above, rfl⟩ := map_eq_ok.mp found
    rcases List.mem_append.mp member with member | member
    · exact ih above member (up path start)
    · rwa [mem_own member]

private theorem makeDirectory_directory {disk after : Disk} {path : Bytes}
    (made : disk.makeDirectory path = .ok after) {place : Place}
    (stands : after.find? place = some .directory) :
    disk.find? place = some .directory ∨ disk.destination path = place := by
  obtain ⟨target, located, ⟨_, placed⟩ | ⟨_, rfl⟩⟩ := makeDirectory_ok made
  · rw [find?_place? placed] at stands
    by_cases same : place = target
    · rw [destination_of_locate located]
      exact .inr same.symm
    · rw [if_neg same] at stands
      exact .inl stands
  · exact .inl stands

private theorem makeEach_directory {disk : Disk} {paths : List Bytes} {place : Place}
    (stands : (disk.makeEach paths).2.find? place = some .directory) :
    disk.find? place = some .directory ∨ ∃ path ∈ paths, disk.destination path = place := by
  induction paths generalizing disk with
  | nil => exact .inl stands
  | cons path paths ih =>
    rw [makeEach] at stands
    cases made : disk.makeDirectory path with
    | error problem =>
      rw [made] at stands
      exact .inl stands
    | ok middle =>
      rw [made] at stands
      rcases ih stands with stood | ⟨other, member, led⟩
      · rcases makeDirectory_directory made stood with stood | led
        · exact .inl stood
        · exact .inr ⟨path, List.mem_cons_self, led⟩
      · rw [(makeDirectory_sameOutside made).destination_eq] at led
        exact .inr ⟨other, List.mem_cons_of_mem _ member, led⟩

/-- The same of all directories that are to be made for a path. -/
theorem missingDirectories_induction {disk : Disk} {motive : Bytes → Prop}
    (up : ∀ path, motive path → motive (parent path)) {text path : Bytes} {paths : List Bytes}
    (found : disk.missingDirectories [] (ancestors (withoutSlash path)) = .ok paths)
    (member : text ∈ paths) (start : motive path) : motive text := by
  obtain ⟨lacking, walked, rfl, _⟩ := missingDirectories_ancestors.mp found
  rw [List.append_nil] at member
  apply missing_induction up walked member
  rcases withoutSlash_cases path with same | same
  · rwa [same]
  · rw [same]
    exact up path start

/-- A path passes all that the directories do that are to be made for it. -/
theorem passes_of_missing {disk : Disk} {path text : Bytes} {paths : List Bytes} {place : Place}
    (found : disk.missingDirectories [] (ancestors (withoutSlash path)) = .ok paths)
    (member : text ∈ paths) (passes : disk.Passes text place) : disk.Passes path place := by
  have onward (outer : Bytes) (passes : ∀ place, disk.Passes outer place → disk.Passes path place)
      (place : Place) (below : disk.Passes (parent outer) place) : disk.Passes path place :=
    passes place (passes_of_parent below)
  exact missingDirectories_induction onward found member (fun _ passes => passes) place passes

/-- A new directory stands on the way that the path takes. -/
theorem makeDirectories_directory {disk : Disk} {path : Bytes} {place : Place}
    (stands : (disk.makeDirectories path).2.find? place = some .directory) :
    disk.find? place = some .directory ∨ disk.Passes path place := by
  rcases disk.makeDirectories_cases path with same | ⟨paths, missing, same⟩
  · rw [same] at stands
    exact .inl stands
  rw [same] at stands
  rcases makeEach_directory stands with stood | ⟨text, member, rfl⟩
  · exact .inl stood
  · exact .inr (passes_of_missing missing member ⟨_, List.prefix_rfl, rfl⟩)

/-- A path that leads somewhere passes directories on its way. -/
theorem passes_located {disk : Disk} {path : Bytes} {target place : Place}
    (located : disk.locate path = .ok target) (passes : disk.Passes path place) :
    place = target ∨ disk.find? place = some .directory := by
  obtain ⟨front, ⟨rest, whole⟩, rfl⟩ := passes
  have followed := follow_of_locate located
  rw [← whole] at followed
  have onward := follow_append_ok followed
  cases rest with
  | nil =>
    rw [follow] at onward
    exact .inl (Except.ok.inj onward)
  | cons name rest => exact .inr (follow_cons_ok onward).1

/-- A path that leads to a directory passes directories only. -/
theorem directory_of_passes {disk : Disk} {path : Bytes} {target place : Place}
    (located : disk.locate path = .ok target) (directory : disk.find? target = some .directory)
    (passes : disk.Passes path place) : disk.find? place = some .directory := by
  rcases passes_located located passes with same | stands
  · rwa [same]
  · exact stands

end Unbundle.Disk
