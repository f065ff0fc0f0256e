import Unbundle.Proofs.Disk.Again
import Unbundle.Proofs.Output.History

namespace Unbundle

open Ascii Disk Unbundle.Path

namespace Disk

variable {disk later : Disk} {root path : Bytes} {inner paths : List Bytes} {name : Bytes}
  {place : Place}

/-- The text of a directory still leads there without the slashes at its end. -/
theorem Opens.textAt (opens : disk.Opens root) : disk.Opens (textAt root []) := by
  obtain ⟨place, located, directory⟩ := opens
  refine ⟨place, ?_, directory⟩
  obtain ⟨ending, whole, slashes⟩ := trimmed_eq root
  have none : Path.Names [] := fun name member => absurd member List.not_mem_nil
  by_cases cut : nul ∈ trimmed root
  · rw [← located]
    apply locate_congr
    conv => rhs; rw [whole, Bytes.untilNul_cut cut]
    rfl
  · have plain : nul ∉ root := by
      rw [whole, List.mem_append, not_or]
      exact ⟨cut, fun member => absurd (slashes nul member) (by decide)⟩
    have nonempty := root_ne_nil located
    have short := short_of_located located
    have followed := follow_of_locate located
    rw [Bytes.untilNul_eq_self plain] at short followed
    have front : (Path.textAt root []).length ≤ root.length := by
      conv => rhs; rw [whole]
      rw [List.length_append]
      exact Nat.le_add_right _ _
    have same : Bytes.untilNul (Path.textAt root []) = Path.textAt root [] :=
      Bytes.untilNul_eq_self cut
    rw [locate, same, if_neg (textAt_ne_nil nonempty none),
      if_neg (Nat.not_lt.mpr (front.trans short)), isAbsolute_textAt nonempty none,
      names_textAt root none, List.append_nil]
    exact followed

theorem names_segments (canonical : Canonical path) : Path.Names (segments path) :=
  fun _ member => ⟨(canonical.segment_ne member).1, slash_notMem member⟩

/-- The directory of a canonical path below a root. -/
theorem parent_below (root : Bytes) (canonical : Canonical path) :
    parent (Path.below root path) = Path.textAt root (segments path).dropLast := by
  obtain ⟨outer, name, parts⟩ :=
    (List.eq_nil_or_concat' (segments path)).resolve_left (segments_ne_nil path)
  have proper := names_segments canonical
  rw [below_eq_textAt]
  rw [parts] at proper ⊢
  rw [parent_textAt root proper, List.dropLast_concat]

theorem parent_below_ne_nil (nonempty : root ≠ []) (canonical : Canonical path) :
    parent (Path.below root path) ≠ [] := by
  rw [parent_below root canonical]
  apply textAt_ne_nil nonempty
  intro name member
  exact names_segments canonical name (List.dropLast_subset _ member)

private theorem length_own (path : Bytes) : (own path).length ≤ 1 := by
  rcases own_cases path with own | ⟨own, _⟩ <;> rw [own]
  · exact Nat.le_refl 1
  · exact Nat.zero_le 1

theorem length_missing (opens : disk.Opens root) (proper : Path.Names (inner ++ [name]))
    (found : disk.missing (Path.textAt root (inner ++ [name])) = .ok paths) :
    paths.length ≤ inner.length + 1 := by
  have single := length_own (Path.textAt root (inner ++ [name]))
  induction inner using List.reverseRec generalizing name paths with
  | nil =>
    have above : disk.Opens (parent (Path.textAt root ([] ++ [name]))) := by
      rw [parent_textAt root proper]
      exact opens.textAt
    rw [missing_inside above] at found
    cases found
    exact single
  | append_singleton outer last ih =>
    rw [List.length_append, List.length_singleton]
    rcases missing_cases found with rfl | ⟨lacking, above, rfl⟩
    · omega
    · rw [parent_textAt root proper] at above
      have few := ih proper.of_append.1 above (length_own _)
      rw [List.length_append]
      omega

/-- Not too many directories are lacking above a path that has not too many segments. -/
theorem shallow_below (opens : disk.Opens root) (canonical : Canonical path)
    (few : (segments path).length ≤ maxDepth + 1) :
    disk.Shallow (parent (Path.below root path)) := by
  have proper := names_segments canonical
  obtain ⟨outer, last, parts⟩ :=
    (List.eq_nil_or_concat' (segments path)).resolve_left (segments_ne_nil path)
  rw [parent_below root canonical]
  rw [parts] at proper few ⊢
  rw [List.length_append, List.length_singleton] at few
  rw [List.dropLast_concat]
  intro lacking found
  rcases List.eq_nil_or_concat' outer with rfl | ⟨outer, name, rfl⟩
  · rw [opens.textAt.withoutSlash.missing_eq] at found
    cases found
    exact (length_own _).trans (by decide)
  · have above := proper.of_append.1
    rw [withoutSlash_textAt above (by simp)] at found
    have less := length_missing opens above found
    rw [List.length_append, List.length_singleton] at few
    omega

/-! ### The way to a path below a root -/

theorem seen_parent_below (canonical : Canonical path)
    (uncut : nul ∉ root) (plain : nul ∉ path) :
    names (Bytes.untilNul (parent (Path.below root path))) =
      names root ++ (segments path).dropLast := by
  obtain ⟨outer, last, parts⟩ :=
    (List.eq_nil_or_concat' (segments path)).resolve_left (segments_ne_nil path)
  have proper := names_segments canonical
  have whole : nul ∉ Path.below root path := by
    obtain ⟨ending, whole, _, slashes, _⟩ := below_eq root canonical.head?_ne_slash
    rw [whole, List.mem_append, List.mem_append, not_or, not_or]
    exact ⟨⟨uncut, fun member => absurd (slashes nul member) (by decide)⟩, plain⟩
  rw [parent_below root canonical]
  rw [below_eq_textAt] at whole
  rw [parts] at proper whole ⊢
  rw [List.dropLast_concat, Bytes.untilNul_eq_self, names_textAt root proper.of_append.1]
  exact fun member => whole ((textAt_front root proper).subset member)

/-- On the way to the directory of a path, only what the root passes can be where the path leads. -/
theorem passes_parent_below (canonical : Canonical path)
    (uncut : nul ∉ root) (plain : nul ∉ path)
    (passes : disk.Passes (parent (Path.below root path)) (disk.destination root ++ segments path)) :
    disk.Passes root (disk.destination root ++ segments path) := by
  obtain ⟨front, part, led⟩ := passes
  have relative := canonical.head?_ne_slash
  rw [(parent_seen _).absolute, absolute_below relative] at led
  rw [seen_parent_below canonical uncut plain] at part
  have same := Bytes.untilNul_eq_self uncut
  rcases List.prefix_or_prefix_of_prefix part (List.prefix_append _ _) with short | ⟨behind, rfl⟩
  · exact ⟨front, by rwa [same], led⟩
  rw [List.prefix_append_right_inj] at part
  have proper : ∀ name ∈ behind, name ≠ here ∧ name ≠ up := fun name member =>
    (canonical.segment_ne (List.dropLast_subset _ (part.subset member))).2
  rw [same, reach_append, reach_proper _ proper] at led
  have start : reach (if isAbsolute root then [] else disk.current) (names root) =
      disk.destination root := by rw [destination, same]
  rw [start] at led
  have lengths := congrArg List.length (List.append_cancel_left led)
  have short := part.length_le
  have some := List.length_pos_iff.mpr (segments_ne_nil path)
  rw [List.length_dropLast] at short
  omega

/-- Below a directory, a canonical path without a NUL leads where its segments do. -/
theorem destination_canonical (disk : Disk) (uncut : nul ∉ root) (canonical : Canonical path)
    (plain : nul ∉ path) :
    disk.destination (Path.below root path) = disk.destination root ++ segments path := by
  obtain ⟨seen, absolute⟩ := seen_below uncut canonical.head?_ne_slash
  rw [destination, destination, seen, absolute, Bytes.untilNul_eq_self uncut,
    Bytes.untilNul_eq_self plain, names_canonical canonical, reach_append, reach_proper]
  exact fun name member => (canonical.segment_ne member).2

/-- Where a path leads below a root, if no NUL cuts it off. -/
theorem located_below (canonical : Canonical path) (uncut : nul ∉ root) (plain : nul ∉ path)
    (located : disk.locate (Path.below root path) = .ok place) :
    place = disk.destination root ++ segments path := by
  have followed := follow_below_plain uncut canonical.head?_ne_slash located
  rw [Bytes.untilNul_eq_self plain, names_canonical canonical] at followed
  rw [← reach_of_follow followed]
  exact reach_proper _ fun name member => (canonical.segment_ne member).2

/-- A path that leads somewhere below a root does so from a directory. -/
theorem opens_parent_below (opens : disk.Opens root) (canonical : Canonical path)
    (uncut : nul ∉ root) (plain : nul ∉ path)
    (located : disk.locate (Path.below root path) = .ok place) :
    disk.Opens (parent (Path.below root path)) := by
  have led := located_below canonical uncut plain located
  obtain ⟨above, arrived, same | stands⟩ :=
    locate_parent located (parent_below_ne_nil opens.ne_nil canonical)
  · subst same
    obtain ⟨home, opened, directory⟩ := opens
    have passes : disk.Passes (parent (Path.below root path)) above :=
      ⟨_, List.prefix_rfl, destination_of_locate arrived⟩
    rw [led] at passes
    refine ⟨above, arrived, ?_⟩
    rw [led]
    exact directory_of_passes opened directory (passes_parent_below canonical uncut plain passes)
  · exact ⟨above, arrived, stands⟩

theorem find?_of_makeDirectories (opens : disk.Opens root) (canonical : Canonical path)
    (uncut : nul ∉ root) (plain : nul ∉ path)
    (stands : (disk.makeDirectories (parent (Path.below root path))).2.find?
      (disk.destination root ++ segments path) = some .directory) :
    disk.find? (disk.destination root ++ segments path) = some .directory := by
  rcases makeDirectories_directory stands with stood | passes
  · exact stood
  · obtain ⟨home, opened, directory⟩ := opens
    exact directory_of_passes opened directory (passes_parent_below canonical uncut plain passes)

/-- A directory that stands where a path leads on a later disk is found there. -/
theorem opens_below (opens : disk.Opens root) (canonical : Canonical path) (uncut : nul ∉ root)
    (plain : nul ∉ path) (current : later.current = disk.current)
    (located : later.locate (Path.below root path) = .ok place)
    (stands : disk.find? place = some .directory) : disk.Opens (Path.below root path) := by
  obtain ⟨home, opened, _⟩ := opens
  have relative := canonical.head?_ne_slash
  have followed := follow_below_plain uncut relative located
  have led : later.destination root = home := by
    rw [← destination_of_locate opened, destination, destination, current]
  have down : up ∉ names (Bytes.untilNul path) := by
    rw [Bytes.untilNul_eq_self plain, names_canonical canonical]
    exact fun member => (canonical.segment_ne member).2.2 rfl
  rw [led] at followed
  refine ⟨place, locate_of_follow located ?_, stands⟩
  have start := follow_of_locate opened
  rw [Bytes.untilNul_eq_self uncut] at start
  obtain ⟨seen, absolute⟩ := seen_below uncut relative
  rw [seen, absolute, follow_append start]
  exact follow_down down followed stands

end Disk

namespace Output

variable {disk after later final : Disk} {policy : OverwritePolicy} {root path content : Bytes}
  {failure : Failure}

/-! ### One file put again -/

private theorem makeParent_eq {target : Bytes} (opens : disk.Opens (parent target)) :
    makeParent disk target = (none, disk) := by
  rw [makeParent]
  by_cases top : parent target = []
  · rw [if_pos top]
  · rw [if_neg top, opens.makeDirectories_eq]

theorem makeParent_below (nonempty : root ≠ []) (canonical : Canonical path) (disk : Disk) :
    makeParent disk (below root path) = disk.makeDirectories (parent (below root path)) := by
  rw [makeParent, if_neg (parent_below_ne_nil nonempty canonical)]

theorem starts_parent_below (opens : disk.Opens root) (canonical : Canonical path) :
    disk.Starts (parent (below root path)) :=
  ((starts_below canonical.head?_ne_slash).mpr opens.starts).congr (parent_seen _).absolute

private theorem makeParent_opens (opens : disk.Opens root) (canonical : Canonical path)
    (made : makeParent disk (below root path) = (none, after)) :
    after.Opens (parent (below root path)) := by
  rw [makeParent_below opens.ne_nil canonical] at made
  have grown := disk.makeDirectories_grown (parent (below root path))
  rw [made] at grown
  exact makeDirectories_starts made (grown.starts (starts_parent_below opens canonical))

/-- A file that was put can be put again, and nothing else changes then. -/
theorem put_again (opens : disk.Opens root) (canonical : Canonical path)
    (done : put disk (below root path) content = (.ok (), after)) (grown : Grown after later) :
    ∃ place final, put later (below root path) content = (.ok (), final) ∧
      (∀ other, after.file? other = if other = place then some content else disk.file? other) ∧
      ∀ other, final.find? other =
        if other = place then some (.file content) else later.find? other := by
  obtain ⟨middle, made, written⟩ := put_ok_cases done
  have inside := makeParent_opens opens canonical made
  have kept := makeParent_sameOutside disk (below root path)
  rw [made] at kept
  obtain ⟨place, located, placed⟩ := write_ok written
  have stands : later.file? place ≠ none := by
    apply grown.file
    rw [file?_of_place? placed]
    exact Option.some_ne_none _
  obtain ⟨final, placed'⟩ := place?_over stands content
  have base := (write_grown written).trans grown
  have again : later.write (below root path) content = .ok final := by
    rw [Disk.write, wantsDirectory_of_write written, if_neg Bool.false_ne_true,
      base.locate_eq located]
    exact placed'
  refine ⟨place, final, ?_, ?_, find?_place? placed'⟩
  · rw [put, makeParent_eq (base.opens inside)]
    dsimp only
    rw [again]
  · intro other
    by_cases same : other = place
    · rw [if_pos same, same, file?_of_place? placed]
    · rw [if_neg same, ← kept.2 other id]
      apply file?_congr
      rw [find?_place? placed, if_neg same]

/-- A file that could not be put cannot be put later, and trying leaves nothing behind. -/
theorem put_again_error (opens : disk.Opens root) (canonical : Canonical path)
    (few : (segments path).length ≤ maxDepth + 1)
    (failed : put disk (below root path) content = (.error failure, after))
    (grown : Grown after later) :
    ∃ failure', put later (below root path) content = (.error failure', later) := by
  rcases (put_error_cases failed).2 with ⟨problem, made⟩ | ⟨made, problem, refused⟩
  · rw [makeParent_below opens.ne_nil canonical] at made
    obtain ⟨problem', again⟩ := makeDirectories_again (starts_parent_below opens canonical)
      (shallow_below opens canonical few) made grown
    rw [put, makeParent_below opens.ne_nil canonical, again]
    exact ⟨_, rfl⟩
  · have inside := makeParent_opens opens canonical made
    obtain ⟨problem', again⟩ := inside.based.write_error grown refused
    rw [put, makeParent_eq (grown.opens inside)]
    dsimp only
    rw [again]
    exact ⟨_, rfl⟩

theorem wantsDirectory_below (canonical : Canonical path) (uncut : nul ∉ root)
    (plain : nul ∉ path) : wantsDirectory (Bytes.untilNul (below root path)) = false := by
  obtain ⟨ending, whole, _, slashes, _⟩ := below_eq root canonical.head?_ne_slash
  obtain ⟨front, b, rfl⟩ := (List.eq_nil_or_concat' path).resolve_left canonical.ne_nil
  have stem : nul ∉ root ++ ending ++ (front ++ [b]) := by
    rw [List.mem_append, List.mem_append, not_or, not_or]
    exact ⟨⟨uncut, fun member => absurd (slashes nul member) (by decide)⟩, plain⟩
  rw [whole, Bytes.untilNul_eq_self stem, wantsDirectory, ← List.append_assoc, List.getLast?_concat]
  apply decide_eq_false
  intro same
  cases same
  exact (canonical.segment_ne (lastSegment_mem _)).1 (lastSegment_concat_slash front)

theorem presence_of_put (canonical : Canonical path) (plain : nul ∉ path)
    (stands : nul ∈ root → disk.find? (disk.destination root) = some .directory)
    (done : put disk (below root path) content = (.ok (), after)) :
    after.presence (below root path) = .ok true := by
  have found := (put_ok canonical plain stands done).1
  rw [fileAt?] at found
  rw [presence]
  cases state : after.status (below root path) with
  | ok entry => rfl
  | error problem =>
    rw [state] at found
    cases found

/-- A path that named nothing and at which nothing could be put names nothing later. -/
theorem absent_again (opens : disk.Opens root) (canonical : Canonical path) (plain : nul ∉ path)
    (few : (segments path).length ≤ maxDepth + 1)
    (absent : disk.presence (below root path) = .ok false)
    (failed : put disk (below root path) content = (.error failure, after))
    (grown : Grown after later) : later.presence (below root path) ≠ .ok true := by
  intro present
  obtain ⟨entry, state⟩ := presence_ok present
  obtain ⟨place, located, _⟩ := status_ok state
  have base := put_grown disk (below root path) content
  rw [failed] at base
  have base := base.trans grown
  have closed : ¬disk.Opens (below root path) := by
    intro opened
    rw [opened.presence_eq] at absent
    cases absent
  have uncut : nul ∉ root := fun cut =>
    closed (opens.congr (untilNul_below cut canonical.head?_ne_slash))
  rcases (put_error_cases failed).2 with ⟨problem, made⟩ | ⟨made, problem, refused⟩
  · rw [makeParent_below opens.ne_nil canonical] at made
    obtain ⟨problem', again⟩ := makeDirectories_again (starts_parent_below opens canonical)
      (shallow_below opens canonical few) made grown
    have outer := opens_parent_below (base.opens opens) canonical uncut plain located
    rw [outer.makeDirectories_eq] at again
    cases again
  · have inside := makeParent_opens opens canonical made
    have there := (inside.based.locate_eq grown located).1
    have stands : after.find? place = some .directory := by
      by_contra free
      obtain ⟨_, placed⟩ := inside.based.place?_eq grown located free (.file content)
      rw [Disk.write, wantsDirectory_below canonical uncut plain, if_neg Bool.false_ne_true,
        there] at refused
      dsimp only at refused
      rw [placed] at refused
      cases refused
    have led := located_below canonical uncut plain located
    have same : later.destination root = disk.destination root := by
      rw [destination, destination, base.current]
    rw [makeParent_below opens.ne_nil canonical] at made
    rw [led, same] at stands
    have stood := find?_of_makeDirectories opens canonical uncut plain (by rw [made]; exact stands)
    rw [← same, ← led] at stood
    exact closed (opens_below opens canonical uncut plain base.current located stood)

/-! ### What offers leave alone -/

/-- A directory that is made for a file stands on the way of its path. -/
theorem put_directory {target : Bytes} {place : Place}
    (stands : (put disk target content).2.find? place = some .directory) :
    disk.find? place = some .directory ∨ disk.Passes target place := by
  have parent (stands : (makeParent disk target).2.find? place = some .directory) :
      disk.find? place = some .directory ∨ disk.Passes target place := by
    rw [makeParent] at stands
    by_cases top : parent target = []
    · rw [if_pos top] at stands
      exact .inl stands
    · rw [if_neg top] at stands
      exact (makeDirectories_directory stands).imp_right passes_of_parent
  rcases stored : put disk target content with ⟨failure | _, after⟩
  · rw [stored] at stands
    rcases (put_error_cases stored).2 with ⟨problem, made⟩ | ⟨made, _⟩
    · exact parent (by rw [made]; exact stands)
    · exact parent (by rw [made]; exact stands)
  · rw [stored] at stands
    obtain ⟨middle, made, written⟩ := put_ok_cases stored
    obtain ⟨target, _, placed⟩ := write_ok written
    dsimp only at stands
    rw [find?_place? placed] at stands
    by_cases same : place = target
    · rw [if_pos same] at stands
      cases stands
    · rw [if_neg same] at stands
      exact parent (by rw [made]; exact stands)

theorem put_intact (opens : disk.Opens root) (canonical : Canonical path) (content : Bytes) :
    Intact (disk.destination root <+: ·) disk (put disk (below root path) content).2 := by
  have same := put_sameOutside disk root content canonical
  have grown := put_grown disk (below root path) content
  refine ⟨same.1, ?_⟩
  intro place outside
  refine find?_congr ⟨?_, grown.directory place⟩ (same.2 place outside)
  intro stands
  rcases put_directory stands with stood | passes
  · exact stood
  rcases passes_canonical canonical passes with passes | inside | rfl
  · obtain ⟨home, located, directory⟩ := opens
    exact directory_of_passes located directory passes
  · exact absurd inside outside
  · exact find?_dropLast opens.destination_eq

theorem offerAll_intact {output : Output} (opens : output.disk.Opens root)
    (policy : OverwritePolicy) {offers : List Offer}
    (canonical : ∀ offer ∈ offers, Canonical offer.path) :
    Intact (output.disk.destination root <+: ·) output.disk
      (output.offerAll policy root offers).disk := by
  induction offers generalizing output with
  | nil => exact .refl _ output.disk
  | cons offer offers ih =>
    obtain ⟨first, others⟩ := List.forall_mem_cons.mp canonical
    have changed : Intact (output.disk.destination root <+: ·) output.disk
        (output.offer policy root offer).2.disk := by
      rcases output.offer_disk policy root offer with same | stored
      · rw [same]
        exact .refl _ output.disk
      · rw [stored]
        exact put_intact opens first _
    have rest := ih ((output.offer_grown policy root offer).opens opens) others
    rw [changed.sameOutside.destination_eq] at rest
    exact changed.trans rest

private theorem makeParent_adrift {target : Bytes} (still : ¬disk.Starts target) :
    (makeParent disk target).2 = disk := by
  have outer : ¬disk.Starts (parent target) :=
    fun starts => still (starts.congr (parent_seen target).absolute.symm)
  rw [makeParent]
  by_cases top : Path.parent target = []
  · rw [if_pos top]
  · rw [if_neg top, makeDirectories_adrift outer]

/-- A path that a file is put under starts from a directory. -/
theorem starts_of_put {target : Bytes} (done : put disk target content = (.ok (), after)) :
    disk.Starts target := by
  by_contra still
  obtain ⟨middle, made, written⟩ := put_ok_cases done
  obtain ⟨place, located, _⟩ := write_ok written
  have parent := makeParent_adrift still
  rw [made] at parent
  dsimp only at parent
  rw [parent] at located
  exact still (starts_of_locate located)

theorem put_adrift {target : Bytes} (still : ¬disk.Starts target) (content : Bytes) :
    (put disk target content).2 = disk := by
  have parent := makeParent_adrift still
  rcases stored : put disk target content with ⟨failure | _, after⟩
  · rcases (put_error_cases stored).2 with ⟨problem, made⟩ | ⟨made, _⟩
    · rwa [made] at parent
    · rwa [made] at parent
  · exact absurd (starts_of_put stored) still

theorem offerAll_adrift {output : Output} (still : ¬output.disk.Starts root)
    (policy : OverwritePolicy) {offers : List Offer}
    (canonical : ∀ offer ∈ offers, Canonical offer.path) :
    (output.offerAll policy root offers).disk = output.disk := by
  induction offers generalizing output with
  | nil => rfl
  | cons offer offers ih =>
    obtain ⟨first, others⟩ := List.forall_mem_cons.mp canonical
    have below : ¬output.disk.Starts (below root offer.path) :=
      fun starts => still ((starts_below first.head?_ne_slash).mp starts)
    have same : (output.offer policy root offer).2.disk = output.disk := by
      rcases output.offer_disk policy root offer with same | stored
      · exact same
      · rw [stored, put_adrift below]
    have rest := ih (by rwa [same]) others
    exact rest.trans same

end Output

end Unbundle
