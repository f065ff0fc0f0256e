import Unbundle.Proofs.Disk.Arrival

namespace Unbundle.Disk

open Ascii Unbundle.Path

variable {disk middle after later : Disk} {path content : Bytes} {place : Place}
  {problem : Problem}

/-! ### What growth leaves of a path -/

private theorem follow_front {first second : List Bytes} {other : Place}
    (followed : disk.follow place (first ++ second) = .ok other) :
    disk.follow place first = .ok (reach place first) := by
  induction first generalizing place with
  | nil => rfl
  | cons name first ih =>
    obtain ⟨directory, short, rest⟩ := follow_cons_ok followed
    rw [follow_cons directory short, ih rest]
    rfl

theorem short_of_located (located : disk.locate path = .ok place) :
    (Bytes.untilNul path).length ≤ maxPathLength := by
  apply Nat.not_lt.mp
  intro long
  rw [locate, if_neg (seen_ne_nil located), if_pos long] at located
  cases located

/-- The directory of a path that leads somewhere leads to the same place or to a directory. -/
theorem locate_parent (located : disk.locate path = .ok place) (more : parent path ≠ []) :
    ∃ above, disk.locate (parent path) = .ok above ∧
      (above = place ∨ disk.find? above = some .directory) := by
  have seen := parent_seen path
  have followed := follow_of_locate located
  obtain ⟨rest, whole⟩ := seen.names
  rw [← whole] at followed
  have nonempty : Bytes.untilNul (parent path) ≠ [] := by
    by_cases cut : nul ∈ parent path
    · rw [← untilNul_of_cut cut]
      exact seen_ne_nil located
    · rwa [Bytes.untilNul_eq_self cut]
  have short := seen.front.length_le.trans (short_of_located located)
  refine ⟨_, ?_, passes_located located ⟨_, seen.names, rfl⟩⟩
  rw [locate, if_neg nonempty, if_neg (Nat.not_lt.mpr short), seen.absolute]
  exact follow_front followed

theorem Opens.outer (opens : disk.Opens path) (more : parent path ≠ []) :
    disk.Opens (parent path) := by
  obtain ⟨target, located, directory⟩ := opens
  obtain ⟨above, led, same | stands⟩ := locate_parent located more
  · exact ⟨above, led, same ▸ directory⟩
  · exact ⟨above, led, stands⟩

/-- Where the directory of a path was there already, the path led where it leads now, and stood in
a directory or was one. -/
theorem Based.locate_eq (based : disk.Based path) (grown : Grown disk later)
    (located : later.locate path = .ok place) :
    disk.locate path = .ok place ∧
      (disk.find? place = some .directory ∨ disk.find? place.dropLast = some .directory) := by
  obtain ⟨base, followed, directory⟩ := based
  obtain ⟨last, parts, single⟩ := names_parent path
  have whole := follow_of_locate located
  rw [parts, grown.current, follow_append (grown.follow_eq followed)] at whole
  have onward : disk.follow base last = .ok place ∧
      (disk.find? place = some .directory ∨ disk.find? place.dropLast = some .directory) := by
    match last with
    | [] =>
      rw [follow] at whole
      cases whole
      exact ⟨rfl, .inl directory⟩
    | [name] =>
      obtain ⟨_, short, arrived⟩ := follow_cons_ok whole
      rw [follow] at arrived
      cases arrived
      refine ⟨by rw [follow_cons directory short, follow], ?_⟩
      rw [step]
      by_cases still : name = here
      · rw [if_pos still]
        exact .inl directory
      by_cases back : name = up
      · rw [if_neg still, if_pos back]
        exact .inl (find?_dropLast directory)
      · rw [if_neg still, if_neg back, List.dropLast_concat]
        exact .inr directory
    | _ :: _ :: _ =>
      rw [List.length_cons, List.length_cons] at single
      omega
  refine ⟨locate_of_follow located ?_, onward.2⟩
  rw [parts, follow_append followed]
  exact onward.1

theorem Opens.presence_eq (opens : disk.Opens path) :
    disk.presence path = .ok true := by
  rw [presence, opens.status_eq]

namespace Grown

variable (grown : Grown disk later)

include grown

private theorem status_file (state : disk.status path = .ok (.file content)) :
    ∃ content', later.status path = .ok (.file content') := by
  obtain ⟨place, located, found⟩ := status_ok state
  obtain ⟨content', stands⟩ := file?_ne_none.mp (grown.file place (file?_ne_none.mpr ⟨_, found⟩))
  refine ⟨content', ?_⟩
  rw [status, located] at state
  dsimp only at state
  rw [found] at state
  dsimp only at state
  rw [status, grown.locate_eq located]
  dsimp only
  rw [stands]
  dsimp only
  by_cases wants : wantsDirectory (Bytes.untilNul path) = true
  · rw [if_pos wants] at state
    cases state
  · rw [if_neg wants]

private theorem follow_problem {names : List Bytes}
    (failed : disk.follow place names = .error problem)
    (present : problem.isAbsence ≠ true) : later.follow place names = .error problem := by
  induction names generalizing place with
  | nil => cases failed
  | cons name names ih =>
    rw [follow] at failed
    cases found : disk.find? place with
    | none =>
      rw [found] at failed
      cases failed
      exact absurd rfl present
    | some entry =>
      rw [found] at failed
      cases entry with
      | file content =>
        cases failed
        exact absurd rfl present
      | directory =>
        dsimp only at failed
        rw [follow, grown.directory place found]
        dsimp only
        by_cases still : name = here
        · rw [if_pos still] at failed ⊢
          exact ih failed
        by_cases back : name = up
        · rw [if_neg still, if_pos back] at failed ⊢
          exact ih failed
        by_cases long : maxNameLength < name.length
        · rw [if_neg still, if_neg back, if_pos long] at failed ⊢
          exact failed
        · rw [if_neg still, if_neg back, if_neg long] at failed ⊢
          exact ih failed

/-- A path that is refused, not just found missing, is refused ever after. -/
theorem status_problem (state : disk.status path = .error problem)
    (present : problem.isAbsence ≠ true) : later.status path = .error problem := by
  have refused : disk.locate path = .error problem := by
    rw [status] at state
    cases located : disk.locate path with
    | error other =>
      rw [located] at state
      cases state
      rfl
    | ok place =>
      rw [located] at state
      dsimp only at state
      cases found : disk.find? place with
      | none =>
        rw [found] at state
        cases state
        exact absurd rfl present
      | some entry =>
        rw [found] at state
        cases entry with
        | directory => cases state
        | file content =>
          dsimp only at state
          by_cases wants : wantsDirectory (Bytes.untilNul path) = true
          · rw [if_pos wants] at state
            cases state
            exact absurd rfl present
          · rw [if_neg wants] at state
            cases state
  have still : later.locate path = .error problem := by
    rw [locate] at refused ⊢
    by_cases empty : Bytes.untilNul path = []
    · rw [if_pos empty] at refused ⊢
      exact refused
    by_cases long : maxPathLength < (Bytes.untilNul path).length
    · rw [if_neg empty, if_pos long] at refused ⊢
      exact refused
    · rw [if_neg empty, if_neg long] at refused ⊢
      rw [grown.current]
      exact grown.follow_problem refused present
  rw [status, still]

theorem presence_eq (present : disk.presence path = .ok true) :
    later.presence path = .ok true := by
  obtain ⟨entry, state⟩ := presence_ok present
  cases entry with
  | directory => exact (grown.opens (status_ok state)).presence_eq
  | file content =>
    obtain ⟨content', still⟩ := grown.status_file state
    rw [presence, still]

theorem presence_problem (refused : disk.presence path = .error problem) :
    later.presence path = .error problem := by
  rw [presence] at refused
  cases state : disk.status path with
  | ok entry =>
    rw [state] at refused
    cases refused
  | error other =>
    rw [state] at refused
    dsimp only at refused
    by_cases absent : other.isAbsence = true
    · rw [if_pos absent] at refused
      cases refused
    · rw [if_neg absent] at refused
      cases refused
      rw [presence, grown.status_problem state absent]
      dsimp only
      rw [if_neg absent]

end Grown

/-! ### One entry tried again -/

theorem Based.place?_eq (based : disk.Based path) (grown : Grown disk later)
    (located : later.locate path = .ok place) (free : disk.find? place ≠ some .directory)
    (entry : Entry) : ∃ after, disk.place? place entry = .ok after := by
  have inside := (based.locate_eq grown located).2.resolve_left free
  rw [place?, dif_neg free, dif_pos inside]
  exact ⟨_, rfl⟩

theorem Based.makeDirectory_error (based : disk.Based path) (grown : Grown disk later)
    (failed : disk.makeDirectory path = .error problem) :
    ∃ problem', later.makeDirectory path = .error problem' := by
  cases made : later.makeDirectory path with
  | error problem' => exact ⟨problem', rfl⟩
  | ok after =>
    obtain ⟨place, located, stands⟩ := makeDirectory_ok made
    have noFile : disk.file? place = none := by
      apply Decidable.not_not.mp
      intro file
      obtain ⟨content, found⟩ := file?_ne_none.mp (grown.file place file)
      rcases stands with ⟨free, _⟩ | ⟨directory, _⟩
      · rw [found] at free
        cases free
      · rw [found] at directory
        cases directory
    rw [makeDirectory, (based.locate_eq grown located).1] at failed
    dsimp only at failed
    cases found : disk.find? place with
    | none =>
      obtain ⟨after, placed⟩ := based.place?_eq grown located (by rw [found]; simp) .directory
      rw [found, placed] at failed
      cases failed
    | some entry =>
      rw [found] at failed
      cases entry with
      | directory => cases failed
      | file content =>
        rw [file?_eq_some.mpr found] at noFile
        cases noFile

/-- A file that could not be written in a directory that was there cannot be written later. -/
theorem Based.write_error (based : disk.Based path) (grown : Grown disk later)
    (failed : disk.write path content = .error problem) :
    ∃ problem', later.write path content = .error problem' := by
  cases written : later.write path content with
  | error problem' => exact ⟨problem', rfl⟩
  | ok after =>
    obtain ⟨place, located, placed⟩ := write_ok written
    have free : disk.find? place ≠ some .directory := fun stands =>
      (place?_ok placed).1 (grown.directory place stands)
    obtain ⟨_, there⟩ := based.place?_eq grown located free (.file content)
    rw [write] at failed written
    by_cases wants : wantsDirectory (Bytes.untilNul path) = true
    · rw [if_pos wants] at written
      cases written
    · rw [if_neg wants, (based.locate_eq grown located).1] at failed
      dsimp only at failed
      rw [there] at failed
      cases failed

/-! ### A path with its directories tried again -/

private theorem makeEach_append (disk : Disk) (first second : List Bytes) :
    disk.makeEach (first ++ second) =
      match disk.makeEach first with
      | (some problem, after) => (some problem, after)
      | (none, after) => after.makeEach second := by
  induction first generalizing disk with
  | nil => rfl
  | cons path first ih =>
    rw [List.cons_append, makeEach, makeEach]
    cases disk.makeDirectory path with
    | error problem => rfl
    | ok after => exact ih after

/-- The disk with a path and all directories that it lies in, however many there are. -/
def raise (disk : Disk) (path : Bytes) : Option Problem × Disk :=
  match disk.missing path with
  | .error problem => (some problem, disk)
  | .ok paths => disk.makeEach paths

private theorem raise_last (last : ¬Further path) : disk.raise path = disk.makeEach (own path) := by
  rw [raise, missing, dif_neg last]

private theorem raise_onward (further : Further path)
    (state : disk.status (parent path) = .error problem)
    (absent : problem.isAbsence = true) :
    disk.raise path =
      match disk.raise (parent path) with
      | (some problem, after) => (some problem, after)
      | (none, after) => after.makeEach (own path) := by
  rw [raise, missing, dif_pos further, state]
  dsimp only
  rw [if_pos absent, raise]
  cases disk.missing (parent path) with
  | error problem => rfl
  | ok paths => exact disk.makeEach_append paths (own path)

private theorem raise_refused (further : Further path)
    (state : disk.status (parent path) = .error problem)
    (present : problem.isAbsence ≠ true) : disk.raise path = (some problem, disk) := by
  rw [raise, missing, dif_pos further, state]
  dsimp only
  rw [if_neg present]

private theorem raise_over (further : Further path)
    (state : disk.status (parent path) = .ok (.file content)) :
    disk.raise path = (some .notDirectory, disk) := by
  rw [raise, missing, dif_pos further, state]

theorem missing_inside (opens : disk.Opens (parent path)) : disk.missing path = .ok (own path) := by
  rw [missing]
  by_cases further : Further path
  · rw [dif_pos further, opens.status_eq]
  · rw [dif_neg further]

private theorem raise_inside (opens : disk.Opens (parent path)) :
    disk.raise path = disk.makeEach (own path) := by
  rw [raise, missing_inside opens]

theorem Opens.missing_eq (opens : disk.Opens path) : disk.missing path = .ok (own path) := by
  by_cases further : Further path
  · exact missing_inside (opens.outer further.2)
  · rw [missing, dif_neg further]

private theorem Opens.raise_eq (opens : disk.Opens path) : disk.raise path = (none, disk) := by
  rw [raise, opens.missing_eq]
  dsimp only
  rcases own_cases path with own | ⟨own, _⟩
  · obtain ⟨place, located, directory⟩ := opens
    rw [own, makeEach, makeDirectory, located]
    dsimp only
    rw [directory]
    rfl
  · rw [own]
    rfl

theorem follow_back (directory : disk.find? place = some .directory) {names : List Bytes}
    (back : ∀ name ∈ names, name = here ∨ name = up) :
    ∃ target, disk.follow place names = .ok target ∧ disk.find? target = some .directory := by
  induction names generalizing place with
  | nil => exact ⟨place, rfl, directory⟩
  | cons name names ih =>
    obtain ⟨first, others⟩ := List.forall_mem_cons.mp back
    rcases first with rfl | rfl
    · rw [follow_cons directory (by decide), step, if_pos rfl]
      exact ih directory others
    · rw [follow_cons directory (by decide), step, if_neg (by decide), if_pos rfl]
      exact ih (find?_dropLast directory) others

/-- A path that starts from a directory is not adrift. -/
theorem Starts.opens (starts : disk.Starts path) (seen : Bytes.untilNul path ≠ [])
    (short : (Bytes.untilNul path).length ≤ maxPathLength)
    (either : disk.Opens path ∨ disk.Adrift path) :
    disk.Opens path := by
  rcases either with opens | adrift
  · exact opens
  obtain ⟨target, followed, directory⟩ := follow_back starts adrift.back
  refine ⟨target, ?_, directory⟩
  rw [locate, if_neg seen, if_neg (Nat.not_lt.mpr short), Bytes.untilNul_eq_self adrift.plain]
  rw [Bytes.untilNul_eq_self adrift.plain] at followed
  exact followed

theorem raise_unseen (unseen : Bytes.untilNul path = []) :
    ∃ problem, disk.raise path = (some problem, disk) := by
  have missed {text : Bytes} (unseen : Bytes.untilNul text = []) :
      disk.locate text = .error .missing := by rw [locate, if_pos unseen]
  have itself (own : own path = [path]) : disk.makeEach (Disk.own path) = (some .missing, disk) := by
    rw [own, makeEach, makeDirectory, missed unseen]
  fun_induction missing disk path with
  | case1 path further state | case2 path further content state =>
    have above := List.prefix_nil.mp (unseen ▸ (parent_seen path).front)
    rw [status, missed above] at state
    cases state
  | case3 path further problem state absent ih =>
    have above := List.prefix_nil.mp (unseen ▸ (parent_seen path).front)
    obtain ⟨refused, fails⟩ := ih above fun own => by
      rw [own, makeEach, makeDirectory, missed above]
    rw [raise_onward further state absent, fails]
    exact ⟨refused, rfl⟩
  | case4 path further problem state present => exact ⟨problem, raise_refused further state present⟩
  | case5 path last =>
    rw [raise_last last]
    rcases own_cases path with own | ⟨_, back⟩
    · exact ⟨_, itself own⟩
    · exact absurd unseen (seen_of_back back last)

private theorem raise_opens (done : disk.raise path = (none, after)) (starts : disk.Starts path)
    (short : (Bytes.untilNul path).length ≤ maxPathLength) : after.Opens path := by
  have seen : Bytes.untilNul path ≠ [] := by
    intro unseen
    obtain ⟨problem, failed⟩ := raise_unseen unseen
    rw [failed] at done
    cases done
  rw [raise] at done
  cases walked : disk.missing path with
  | error problem =>
    rw [walked] at done
    cases done
  | ok paths =>
    rw [walked] at done
    have grown := makeEach_grown disk paths
    dsimp only at done
    rw [done] at grown
    exact (grown.starts starts).opens seen short
      (opens_of_missing grown (fun text member => makeEach_opens done member) short walked)

/-- What a path adds to directories that are there fails again if it fails. -/
theorem Based.own_again (based : disk.Based path)
    (failed : disk.makeEach (own path) = (some problem, after)) (grown : Grown after later) :
    ∃ problem', later.makeEach (own path) = (some problem', later) := by
  rcases own_cases path with own | ⟨own, _⟩
  · rw [own, makeEach] at failed
    cases made : disk.makeDirectory path with
    | ok middle =>
      rw [made] at failed
      cases failed
    | error refused =>
      rw [made] at failed
      cases failed
      obtain ⟨problem', again⟩ := based.makeDirectory_error grown made
      rw [own, makeEach, again]
      exact ⟨problem', rfl⟩
  · rw [own] at failed
    cases failed

theorem eq_of_not_shorter (same : ¬(parent path).length < path.length) :
    path = [] ∨ path = [slash] := by
  have shrinks (p : UInt8 → Bool) (text : Bytes) : dropTrailing p text <+: text := by
    obtain ⟨ending, whole, _⟩ := dropTrailing_eq p text
    exact ⟨ending, whole.symm⟩
  have first := shrinks (· ≠ slash) path
  have second := shrinks (· = slash) (dropTrailing (· ≠ slash) path)
  rw [parent] at same
  by_cases top : dropTrailing (· = slash) (dropTrailing (· ≠ slash) path) = [] ∧
      path.head? = some slash
  · rw [if_pos top, List.length_singleton] at same
    obtain ⟨rest, rfl⟩ := List.head?_eq_some_iff.mp top.2
    rw [List.length_cons] at same
    have none : rest = [] := List.length_eq_zero_iff.mp (by omega)
    exact .inr (by rw [none])
  · rw [if_neg top] at same
    have kept := first.eq_of_length_le (by have := second.length_le; omega)
    rw [kept] at second same
    have still := second.eq_of_length_le (by omega)
    rcases List.eq_nil_or_concat' path with empty | ⟨front, b, rfl⟩
    · exact .inl empty
    have loses (p : UInt8 → Bool) (drops : p b = true) :
        dropTrailing p (front ++ [b]) ≠ front ++ [b] := by
      intro whole
      rw [dropTrailing_append front fun c member => by rwa [List.mem_singleton.mp member]] at whole
      have short := (shrinks p front).length_le
      rw [whole, List.length_append, List.length_singleton] at short
      omega
    by_cases separates : b = slash
    · exact absurd still (loses _ (decide_eq_true separates))
    · exact absurd kept (loses _ (decide_eq_true separates))

theorem raise_again (starts : disk.Starts path) (failed : disk.raise path = (some problem, after))
    (grown : Grown after later) : ∃ problem', later.raise path = (some problem', later) := by
  fun_induction missing disk path generalizing problem after with
  | case1 path further state =>
    have opens : disk.Opens (parent path) := status_ok state
    rw [raise_inside opens] at failed
    have base : Grown disk later := by
      have made := makeEach_grown disk (own path)
      rw [failed] at made
      exact made.trans grown
    rw [raise_inside (base.opens opens)]
    exact opens.based.own_again failed grown
  | case2 path further content state =>
    rw [raise_over further state] at failed
    cases failed
    obtain ⟨content', still⟩ := grown.status_file state
    exact ⟨_, raise_over further still⟩
  | case3 path further refused state absent ih =>
    have outer := starts.congr (parent_seen path).absolute
    have short := short_of_absent state absent
    rw [raise_onward further state absent] at failed
    -- Whatever `later` says of the directory, making it is tried again.
    have tried (fails : ∃ problem', later.raise (parent path) = (some problem', later)) :
        ∃ problem', later.raise path = (some problem', later) := by
      obtain ⟨problem', again⟩ := fails
      cases now : later.status (parent path) with
      | ok entry =>
        cases entry with
        | directory =>
          have opens : later.Opens (parent path) := status_ok now
          rw [opens.raise_eq] at again
          cases again
        | file content => exact ⟨_, raise_over further now⟩
      | error problem'' =>
        by_cases missing : problem''.isAbsence = true
        · rw [raise_onward further now missing, again]
          exact ⟨problem', rfl⟩
        · exact ⟨_, raise_refused further now missing⟩
    rcases raised : disk.raise (parent path) with ⟨_ | refused', middle⟩
    · rw [raised] at failed
      have opens := raise_opens raised outer short
      have made := makeEach_grown middle (own path)
      dsimp only at failed
      rw [failed] at made
      rw [raise_inside ((made.trans grown).opens opens)]
      exact opens.based.own_again failed grown
    · rw [raised] at failed
      cases failed
      exact tried (ih outer raised grown)
  | case4 path further refused state present =>
    rw [raise_refused further state present] at failed
    cases failed
    exact ⟨_, raise_refused further (grown.status_problem state present) present⟩
  | case5 path last =>
    rw [raise_last last] at failed
    rw [raise_last last]
    by_cases top : parent path = []
    · exact (based_of_top top starts).own_again failed grown
    have whole : ¬(parent path).length < path.length := fun shorter => last ⟨shorter, top⟩
    rcases eq_of_not_shorter whole with rfl | rfl
    · exact absurd rfl top
    · have opens : disk.Opens [slash] := ⟨[], rfl, disk.rooted⟩
      have made := opens.raise_eq
      rw [raise_last last, failed] at made
      cases made

theorem Opens.makeDirectories_eq (opens : disk.Opens path) :
    disk.makeDirectories path = (none, disk) := by
  have nonempty : path ≠ [] := by
    rintro rfl
    obtain ⟨place, located, _⟩ := opens
    exact seen_ne_nil located rfl
  rw [makeDirectories, if_neg nonempty, opens.status_eq]

private theorem makeDirectories_over (nonempty : path ≠ [])
    (state : disk.status path = .ok (.file content)) :
    disk.makeDirectories path = (some .notDirectory, disk) := by
  rw [makeDirectories, if_neg nonempty, state]

private theorem makeDirectories_refused (nonempty : path ≠ [])
    (state : disk.status path = .error problem)
    (present : problem.isAbsence ≠ true) : disk.makeDirectories path = (some problem, disk) := by
  rw [makeDirectories, if_neg nonempty, state]
  dsimp only
  rw [if_neg present]

/-- Directories that are made are there, if the path starts from one. -/
theorem makeDirectories_starts (done : disk.makeDirectories path = (none, after))
    (starts : after.Starts path) : after.Opens path := by
  rcases makeDirectories_opens done with opens | adrift
  · exact opens
  have nonempty : path ≠ [] := by
    rintro rfl
    cases done
  have short : (Bytes.untilNul path).length ≤ maxPathLength := by
    cases state : disk.status path with
    | ok entry =>
      obtain ⟨place, located, _⟩ := status_ok state
      exact short_of_located located
    | error problem =>
      by_cases absent : problem.isAbsence = true
      · exact short_of_absent state absent
      · rw [makeDirectories_refused nonempty state absent] at done
        cases done
  apply starts.opens _ short (.inr adrift)
  rwa [Bytes.untilNul_eq_self adrift.plain]

/-- Whether a path lacks no more directories than are made for one path. -/
def Shallow (disk : Disk) (path : Bytes) : Prop :=
  ∀ lacking, disk.missing (withoutSlash path) = .ok lacking → lacking.length ≤ maxDepth

/-- Making the directories of a path that is not there raises it, or is refused: for what the search
comes across, or for their number. -/
theorem makeDirectories_absent (nonempty : path ≠ []) (state : disk.status path = .error problem)
    (absent : problem.isAbsence = true) :
    disk.makeDirectories path = disk.raise (withoutSlash path) ∨
      (∃ refused, disk.makeDirectories path = (some refused, disk)) ∧
        (disk.Shallow path → ∃ refused, disk.raise (withoutSlash path) = (some refused, disk)) := by
  rw [makeDirectories, if_neg nonempty, state]
  dsimp only
  rw [if_pos absent, raise]
  cases found : disk.missingDirectories [] (ancestors (withoutSlash path)) with
  | ok paths =>
    obtain ⟨lacking, walked, same, _⟩ := missingDirectories_ancestors.mp found
    rw [List.append_nil] at same
    rw [walked, same]
    exact .inl rfl
  | error refused =>
    refine .inr ⟨⟨refused, rfl⟩, ?_⟩
    intro shallow
    cases walked : disk.missing (withoutSlash path) with
    | error problem => exact ⟨problem, rfl⟩
    | ok lacking =>
      have few := shallow lacking walked
      have finds := (@missingDirectories_ancestors disk [] lacking _).mpr
        ⟨lacking, walked, (List.append_nil _).symm, few⟩
      rw [found] at finds
      cases finds

theorem Opens.withoutSlash (opens : disk.Opens path) : disk.Opens (withoutSlash path) := by
  rw [Disk.withoutSlash]
  by_cases ends : lastSegment path = [] ∧ names path ≠ []
  · rw [if_pos ends]
    apply opens.outer
    intro top
    obtain ⟨ending, whole, _, slashes, _⟩ := parent_split path
    rw [top, ends.1, List.nil_append, List.append_nil] at whole
    rw [whole] at ends
    exact ends.2 (names_slashes slashes)
  · rw [if_neg ends]
    exact opens

/-- Directories that could not be made cannot be made later, and trying makes none of them. -/
theorem makeDirectories_again (starts : disk.Starts path) (shallow : disk.Shallow path)
    (failed : disk.makeDirectories path = (some problem, after)) (grown : Grown after later) :
    ∃ problem', later.makeDirectories path = (some problem', later) := by
  by_cases empty : path = []
  · rw [empty]
    exact ⟨.invalid, rfl⟩
  have base : Grown disk later := by
    have made := disk.makeDirectories_grown path
    rw [failed] at made
    exact made.trans grown
  cases state : disk.status path with
  | ok entry =>
    cases entry with
    | directory =>
      have opens : disk.Opens path := status_ok state
      rw [opens.makeDirectories_eq] at failed
      cases failed
    | file content =>
      obtain ⟨content', still⟩ := base.status_file state
      exact ⟨_, makeDirectories_over empty still⟩
  | error refused =>
    by_cases absent : refused.isAbsence = true
    · have raised : ∃ problem', disk.raise (withoutSlash path) = (some problem', after) := by
        rcases makeDirectories_absent empty state absent with same | ⟨⟨_, same⟩, fails⟩
        · exact ⟨problem, same.symm.trans failed⟩
        · rw [same] at failed
          cases failed
          exact fails shallow
      have outer : disk.Starts (withoutSlash path) := by
        rcases withoutSlash_cases path with same | same
        · rwa [same]
        · rw [same]
          exact starts.congr (parent_seen path).absolute
      obtain ⟨_, raised⟩ := raised
      obtain ⟨problem', again⟩ := raise_again outer raised grown
      cases now : later.status path with
      | ok entry =>
        cases entry with
        | directory =>
          have opens : later.Opens path := status_ok now
          rw [opens.withoutSlash.raise_eq] at again
          cases again
        | file content => exact ⟨_, makeDirectories_over empty now⟩
      | error problem'' =>
        by_cases missing : problem''.isAbsence = true
        · rcases makeDirectories_absent empty now missing with same | ⟨fails, _⟩
          · exact ⟨problem', same.trans again⟩
          · exact fails
        · exact ⟨_, makeDirectories_refused empty now missing⟩
    · exact ⟨_, makeDirectories_refused empty (base.status_problem state absent) absent⟩

end Unbundle.Disk
