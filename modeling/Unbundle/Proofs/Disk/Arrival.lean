import Unbundle.Proofs.Disk.Ancestors
import Unbundle.Proofs.Disk.Making

namespace Unbundle.Disk

open Ascii Unbundle.Path

/-- Whether a path leads to a directory. -/
def Opens (disk : Disk) (path : Bytes) : Prop :=
  ∃ place, disk.locate path = .ok place ∧ disk.find? place = some .directory

/-- A path that only stays or steps back, from a working directory that is not there. -/
structure Adrift (disk : Disk) (path : Bytes) : Prop where
  plain : nul ∉ path
  back : ∀ name ∈ names path, name = here ∨ name = up
  gone : disk.find? disk.current ≠ some .directory

variable {disk after : Disk} {path text : Bytes} {made paths outer : List Bytes} {place : Place}

theorem status_ok {entry : Entry} (state : disk.status path = .ok entry) :
    ∃ place, disk.locate path = .ok place ∧ disk.find? place = some entry := by
  rw [status] at state
  cases located : disk.locate path with
  | error problem =>
    rw [located] at state
    cases state
  | ok place =>
    rw [located] at state
    dsimp only at state
    refine ⟨place, rfl, ?_⟩
    cases found : disk.find? place with
    | none =>
      rw [found] at state
      cases state
    | some other =>
      rw [found] at state
      cases other with
      | directory =>
        cases state
        rfl
      | file content =>
        dsimp only at state
        by_cases wants : wantsDirectory (Bytes.untilNul path) = true
        · rw [if_pos wants] at state
          cases state
        · rw [if_neg wants] at state
          cases state
          rfl

theorem presence_ok (present : disk.presence path = .ok true) :
    ∃ entry, disk.status path = .ok entry := by
  rw [presence] at present
  cases state : disk.status path with
  | ok entry => exact ⟨entry, rfl⟩
  | error problem =>
    rw [state] at present
    dsimp only at present
    by_cases absent : problem.isAbsence = true
    · rw [if_pos absent] at present
      cases present
    · rw [if_neg absent] at present
      cases present

theorem Opens.status_eq (opens : disk.Opens path) : disk.status path = .ok .directory := by
  obtain ⟨place, located, directory⟩ := opens
  rw [status, located]
  dsimp only
  rw [directory]

theorem Opens.destination_eq (opens : disk.Opens path) :
    disk.find? (disk.destination path) = some .directory := by
  obtain ⟨place, located, directory⟩ := opens
  rwa [destination_of_locate located]

theorem Grown.opens (grown : Grown disk after) (opens : disk.Opens path) : after.Opens path := by
  obtain ⟨place, located, directory⟩ := opens
  exact ⟨place, grown.locate_eq located, grown.directory place directory⟩

/-- Whether a path leads anywhere is told by what stands before its first NUL. -/
theorem locate_congr (disk : Disk) (same : Bytes.untilNul path = Bytes.untilNul text) :
    disk.locate path = disk.locate text := by
  rw [locate, locate, same]

theorem Opens.congr (opens : disk.Opens path) (same : Bytes.untilNul text = Bytes.untilNul path) :
    disk.Opens text := by
  rwa [Opens, disk.locate_congr same]

theorem Opens.ne_nil (opens : disk.Opens path) : path ≠ [] := by
  obtain ⟨place, located, _⟩ := opens
  exact root_ne_nil located

theorem follow_idle (directory : disk.find? place = some .directory)
    (idle : isIdle (lastSegment path) = true ∨ lastSegment path = up) :
    ∃ target, disk.follow place (names (lastSegment path)) = .ok target ∧
      disk.find? target = some .directory := by
  rw [isIdle, Bool.or_eq_true, decide_eq_true_eq, decide_eq_true_eq] at idle
  rcases idle with (none | still) | back
  · rw [none]
    exact ⟨place, rfl, directory⟩
  · have single : names here = [here] := by decide
    rw [still, single, follow_cons directory (by decide)]
    exact ⟨place, rfl, directory⟩
  · have single : names up = [up] := by decide
    rw [back, single, follow_cons directory (by decide)]
    exact ⟨place.dropLast, rfl, find?_dropLast directory⟩

/-- Whether the directory of a path leads to a directory, where an empty one means the directory that
the path starts from. -/
def Based (disk : Disk) (path : Bytes) : Prop :=
  ∃ place, disk.follow (if isAbsolute (Bytes.untilNul path) then [] else disk.current)
      (names (Bytes.untilNul (parent path))) = .ok place ∧ disk.find? place = some .directory

theorem Opens.based (opens : disk.Opens (parent path)) : disk.Based path := by
  obtain ⟨place, located, directory⟩ := opens
  have followed := follow_of_locate located
  rw [(parent_seen path).absolute] at followed
  exact ⟨place, followed, directory⟩

/-- Whether a path starts from a directory. -/
def Starts (disk : Disk) (path : Bytes) : Prop :=
  disk.find? (if isAbsolute (Bytes.untilNul path) then [] else disk.current) = some .directory

theorem based_of_top (top : parent path = []) (starts : disk.Starts path) : disk.Based path := by
  refine ⟨_, ?_, starts⟩
  rw [top]
  rfl

theorem Starts.congr (starts : disk.Starts path)
    (same : isAbsolute (Bytes.untilNul text) = isAbsolute (Bytes.untilNul path)) :
    disk.Starts text := by
  rwa [Starts, same]

theorem Grown.starts (grown : Grown disk after) (starts : disk.Starts path) : after.Starts path := by
  rw [Starts, grown.current]
  exact grown.directory _ starts

theorem seen_ne_nil {place : Place} (located : disk.locate path = .ok place) :
    Bytes.untilNul path ≠ [] := by
  intro empty
  rw [locate, if_pos empty] at located
  cases located

/-- Only a path that starts from a directory leads anywhere. -/
theorem starts_of_locate (located : disk.locate path = .ok place) : disk.Starts path := by
  have followed := follow_of_locate located
  rw [Starts]
  by_cases absolute : isAbsolute (Bytes.untilNul path) = true
  · rw [if_pos absolute]
    exact disk.rooted
  · cases parts : names (Bytes.untilNul path) with
    | nil => exact absurd parts (names_ne_nil (seen_ne_nil located) absolute)
    | cons name rest =>
      rw [parts] at followed
      exact (follow_cons_ok followed).1

theorem Opens.starts (opens : disk.Opens path) : disk.Starts path := by
  obtain ⟨place, located, _⟩ := opens
  exact starts_of_locate located

theorem starts_below {root : Bytes} (relative : path.head? ≠ some slash) :
    disk.Starts (Path.below root path) ↔ disk.Starts root := by
  rw [Starts, absolute_below relative, Starts]

theorem makeEach_adrift (still : ∀ path ∈ paths, ¬disk.Starts path) :
    (disk.makeEach paths).2 = disk := by
  cases paths with
  | nil => rfl
  | cons path paths =>
    rw [makeEach]
    cases made : disk.makeDirectory path with
    | error problem => rfl
    | ok after =>
      obtain ⟨place, located, _⟩ := makeDirectory_ok made
      exact absurd (starts_of_locate located) (still path List.mem_cons_self)

theorem makeDirectories_adrift (still : ¬disk.Starts path) :
    (disk.makeDirectories path).2 = disk := by
  rcases disk.makeDirectories_cases path with same | ⟨paths, found, same⟩
  · exact same
  · have outer (path : Bytes) (still : ¬disk.Starts path) : ¬disk.Starts (parent path) :=
      fun starts => still (starts.congr (parent_seen path).absolute.symm)
    rw [same]
    apply makeEach_adrift
    intro text member
    exact missingDirectories_induction outer found member still

/-- A path whose last segment does not go further down leads to a directory if its directory does. -/
theorem Based.opens (based : disk.Based path) (seen : Bytes.untilNul path ≠ [])
    (idle : isIdle (lastSegment path) = true ∨ lastSegment path = up)
    (short : (Bytes.untilNul path).length ≤ maxPathLength) : disk.Opens path := by
  obtain ⟨place, followed, directory⟩ := based
  have onward {names' : List Bytes} {target : Place}
      (parts : names (Bytes.untilNul path) = names (Bytes.untilNul (parent path)) ++ names')
      (arrived : disk.follow place names' = .ok target) : disk.locate path = .ok target := by
    rw [locate, if_neg seen, if_neg (Nat.not_lt.mpr short), parts]
    exact (follow_append followed _).trans arrived
  by_cases cut : nul ∈ parent path
  · refine ⟨place, @onward [] _ ?_ rfl, directory⟩
    rw [untilNul_of_cut cut, List.append_nil]
  · have clean : nul ∉ lastSegment path := by
      rw [isIdle, Bool.or_eq_true, decide_eq_true_eq, decide_eq_true_eq] at idle
      rcases idle with (same | same) | same <;> rw [same] <;> decide
    obtain ⟨target, arrived, stands⟩ := follow_idle directory idle
    obtain ⟨ending, whole, ends, slashes⟩ := untilNul_of_uncut cut
    refine ⟨target, onward ?_ arrived, stands⟩
    rw [whole, names_append ends, names_append_slashes _ slashes, Bytes.untilNul_eq_self clean,
      Bytes.untilNul_eq_self cut]

private theorem opens_of_parent (idle : isIdle (lastSegment path) = true ∨ lastSegment path = up)
    (short : (Bytes.untilNul path).length ≤ maxPathLength) (opens : disk.Opens (parent path)) :
    disk.Opens path := by
  apply opens.based.opens _ idle short
  obtain ⟨place, located, _⟩ := opens
  exact fun empty => seen_ne_nil located (List.prefix_nil.mp (empty ▸ (parent_seen path).front))

theorem makeEach_opens (done : disk.makeEach paths = (none, after)) (member : text ∈ paths) :
    after.Opens text := by
  induction paths generalizing disk with
  | nil => cases member
  | cons path paths ih =>
    rw [makeEach] at done
    cases first : disk.makeDirectory path with
    | error problem =>
      rw [first] at done
      cases done
    | ok middle =>
      rw [first] at done
      dsimp only at done
      rcases List.mem_cons.mp member with rfl | member
      · have grown := makeEach_grown middle paths
        rw [done] at grown
        apply grown.opens
        obtain ⟨place, located, ⟨_, placed⟩ | ⟨directory, rfl⟩⟩ := makeDirectory_ok first
        · refine ⟨place, (makeDirectory_grown first).locate_eq located, ?_⟩
          rw [find?_place? placed, if_pos rfl]
        · exact ⟨place, located, directory⟩
      · exact ih done member

private theorem Adrift.of_parent (adrift : disk.Adrift (parent path))
    (idle : isIdle (lastSegment path) = true ∨ lastSegment path = up) : disk.Adrift path := by
  obtain ⟨ending, whole, ends, slashes, _⟩ := parent_split path
  have last : nul ∉ lastSegment path ∧
      ∀ name ∈ names (lastSegment path), name = here ∨ name = up := by
    rw [isIdle, Bool.or_eq_true, decide_eq_true_eq, decide_eq_true_eq] at idle
    rcases idle with (same | same) | same <;> rw [same] <;> decide
  refine ⟨?_, ?_, adrift.gone⟩
  · rw [whole, List.mem_append, List.mem_append, not_or, not_or]
    exact ⟨⟨adrift.plain, fun member => absurd (slashes nul member) (by decide)⟩, last.1⟩
  · intro name member
    rw [whole, names_append ends, names_append_slashes _ slashes] at member
    rcases List.mem_append.mp member with member | member
    · exact adrift.back name member
    · exact last.2 name member

theorem own_cases (path : Bytes) :
    own path = [path] ∨ own path = [] ∧ (lastSegment path = here ∨ lastSegment path = up) := by
  rw [own]
  by_cases back : lastSegment path = here ∨ lastSegment path = up
  · rw [if_pos back]
    exact .inr ⟨rfl, back⟩
  · rw [if_neg back]
    exact .inl rfl

theorem parent_of_back (back : lastSegment path = here ∨ lastSegment path = up)
    (last : ¬Further path) : parent path = [] := by
  obtain ⟨ending, whole, _⟩ := parent_split path
  have some : 0 < (lastSegment path).length := by
    rcases back with same | same <;> rw [same] <;> decide
  have lengths := congrArg List.length whole
  rw [List.length_append, List.length_append] at lengths
  exact Decidable.not_not.mp fun more => last ⟨by omega, more⟩

theorem seen_of_back (back : lastSegment path = here ∨ lastSegment path = up)
    (last : ¬Further path) : Bytes.untilNul path ≠ [] := by
  have uncut : nul ∉ parent path := by
    rw [parent_of_back back last]
    exact List.not_mem_nil
  obtain ⟨ending, whole, _⟩ := untilNul_of_uncut uncut
  have final : Bytes.untilNul (lastSegment path) ≠ [] := by
    rcases back with same | same <;> rw [same] <;> decide
  rw [whole]
  exact fun empty => final (List.append_eq_nil_iff.mp empty).2

/-- If the missing directories of a path are there, the path leads to a directory. Only a path that
names none of them can still miss the working directory that it starts from. -/
theorem opens_of_missing (grown : Grown disk after) (stand : ∀ path ∈ paths, after.Opens path)
    (short : (Bytes.untilNul text).length ≤ maxPathLength)
    (found : disk.missing text = .ok paths) : after.Opens text ∨ after.Adrift text := by
  have idle {path : Bytes} (back : lastSegment path = here ∨ lastSegment path = up) :
      isIdle (lastSegment path) = true ∨ lastSegment path = up :=
    back.imp_left fun same => by rw [same]; rfl
  fun_induction missing disk text generalizing paths with
  | case1 path further state =>
    cases found
    rcases own_cases path with own | ⟨_, back⟩
    · exact .inl (stand path (own ▸ List.mem_singleton_self _))
    · exact .inl (opens_of_parent (idle back) short (grown.opens (status_ok state)))
  | case2 | case4 => cases found
  | case3 path further problem state absent ih =>
    obtain ⟨lacking, above, rfl⟩ := map_eq_ok.mp found
    obtain ⟨outer, inner⟩ := List.forall_mem_append.mp stand
    rcases own_cases path with own | ⟨_, back⟩
    · exact .inl (inner path (own ▸ List.mem_singleton_self _))
    · rcases ih outer ((parent_seen path).front.length_le.trans short) above with opens | adrift
      · exact .inl (opens_of_parent (idle back) short opens)
      · exact .inr (adrift.of_parent (idle back))
  | case5 path last =>
    cases found
    rcases own_cases path with own | ⟨_, back⟩
    · exact .inl (stand path (own ▸ List.mem_singleton_self _))
    have top := parent_of_back back last
    by_cases starts : after.Starts path
    · exact .inl ((based_of_top top starts).opens (seen_of_back back last) (idle back) short)
    · have relative := (parent_seen path).absolute
      rw [top] at relative
      rw [Starts, ← relative] at starts
      have adrift : after.Adrift (parent path) := by
        refine ⟨?_, ?_, starts⟩ <;> rw [top]
        · exact List.not_mem_nil
        · decide
      exact .inr (adrift.of_parent (idle back))

/-- A path is not too long if nothing is found under it. -/
theorem short_of_absent {problem : Problem} (state : disk.status path = .error problem)
    (absent : problem.isAbsence = true) : (Bytes.untilNul path).length ≤ maxPathLength := by
  apply Nat.not_lt.mp
  intro long
  have some : Bytes.untilNul path ≠ [] := List.ne_nil_of_length_pos (by omega)
  rw [status, locate, if_neg some, if_pos long] at state
  cases state
  cases absent

/-- Whoever makes directories without a problem leaves a directory where the path leads, unless
the path names none itself and the working directory is not there. -/
theorem makeDirectories_opens (done : disk.makeDirectories path = (none, after)) :
    after.Opens path ∨ after.Adrift path := by
  rw [makeDirectories] at done
  by_cases empty : path = []
  · rw [if_pos empty] at done
    cases done
  rw [if_neg empty] at done
  cases state : disk.status path with
  | ok entry =>
    rw [state] at done
    cases entry with
    | directory =>
      cases done
      exact .inl (status_ok state)
    | file content => cases done
  | error problem =>
    rw [state] at done
    dsimp only at done
    by_cases absent : problem.isAbsence = true
    · rw [if_pos absent] at done
      cases found : disk.missingDirectories [] (ancestors (withoutSlash path)) with
      | error problem =>
        rw [found] at done
        cases done
      | ok paths =>
        rw [found] at done
        dsimp only at done
        obtain ⟨lacking, walked, same, _⟩ := missingDirectories_ancestors.mp found
        rw [List.append_nil] at same
        rw [← same] at walked
        have grown := makeEach_grown disk paths
        rw [done] at grown
        have short := short_of_absent state absent
        have stand (text : Bytes) (member : text ∈ paths) : after.Opens text :=
          makeEach_opens done member
        have above := (parent_seen path).front.length_le
        by_cases ends : lastSegment path = [] ∧ names path ≠ []
        · have idle : isIdle (lastSegment path) = true ∨ lastSegment path = up :=
            .inl (by rw [ends.1]; rfl)
          rw [withoutSlash, if_pos ends] at walked
          rcases opens_of_missing grown stand (above.trans short) walked with opens | adrift
          · exact .inl (opens_of_parent idle short opens)
          · exact .inr (adrift.of_parent idle)
        · rw [withoutSlash, if_neg ends] at walked
          exact opens_of_missing grown stand short walked
    · rw [if_neg absent] at done
      cases done

end Unbundle.Disk
