import Unbundle.Proofs.Disk.Between
import Unbundle.Proofs.Output.Cut

namespace Unbundle

open Ascii Disk Unbundle.Path

namespace Disk

variable {disk after later : Disk} {target content : Bytes}

/-- Whether a file stands where a path leads, in the directory of the path if it has one. -/
structure Bears (disk : Disk) (target : Bytes) : Prop where
  led : parent target ≠ [] → disk.Opens (parent target)
  file : disk.file? (disk.destination target) ≠ none

theorem Grown.bears (grown : Grown disk later) (bears : disk.Bears target) :
    later.Bears target where
  led more := grown.opens (bears.led more)
  file := by
    rw [grown.destination_eq]
    exact grown.file _ bears.file

private theorem based_of_led (starts : disk.Starts target)
    (led : parent target ≠ [] → disk.Opens (parent target)) : disk.Based target := by
  by_cases top : parent target = []
  · exact based_of_top top starts
  · exact (led top).based

theorem Grown.write_over (grown : Grown disk later)
    (written : disk.write target content = .ok after)
    (stands : later.file? (later.destination target) ≠ none) :
    ∃ final, later.write target content = .ok final := by
  obtain ⟨place, located, _⟩ := write_ok written
  rw [grown.destination_eq, destination_of_locate located] at stands
  obtain ⟨final, placed⟩ := place?_over stands content
  refine ⟨final, ?_⟩
  rw [Disk.write, wantsDirectory_of_write written, if_neg Bool.false_ne_true,
    grown.locate_eq located]
  exact placed

end Disk

namespace Output

variable {disk start middle after later : Disk} {root path target content : Bytes}
  {failure : Failure}

private theorem makeParent_led (starts : disk.Starts target)
    (made : makeParent disk target = (none, after)) (more : parent target ≠ []) :
    after.Opens (parent target) := by
  have grown := makeParent_grown disk target
  rw [made] at grown
  rw [makeParent, if_neg more] at made
  exact makeDirectories_starts made
    ((grown.starts starts).congr (parent_seen target).absolute)

private theorem makeParent_bounded (grown : Grown disk later)
    (led : parent target ≠ [] → later.Opens (parent target)) :
    Grown (makeParent disk target).2 later := by
  rw [makeParent]
  by_cases top : parent target = []
  · rwa [if_pos top]
  · rw [if_neg top]
    exact makeDirectories_bounded grown (led top)

/-- A file that has been put stands where its path leads. -/
theorem bears_of_put (done : put disk target content = (.ok (), after)) : after.Bears target := by
  obtain ⟨middle, made, written⟩ := put_ok_cases done
  obtain ⟨place, located, placed⟩ := write_ok written
  have grown := write_grown written
  refine ⟨fun more => grown.opens (makeParent_led (starts_of_put done) made more), ?_⟩
  rw [destination_of_locate (grown.locate_eq located), file?_of_place? placed]
  exact Option.some_ne_none _

theorem located_of_put (done : put disk target content = (.ok (), after)) :
    ∃ place, after.locate target = .ok place := by
  obtain ⟨middle, _, written⟩ := put_ok_cases done
  obtain ⟨place, located, _⟩ := write_ok written
  exact ⟨place, (write_grown written).locate_eq located⟩

/-- On the way to a disk that bears a file, putting one for its path is not too much. -/
theorem put_bounded (grown : Grown disk later) (bears : later.Bears target) (content : Bytes) :
    Grown (put disk target content).2 later := by
  have bounded := makeParent_bounded grown bears.led
  rcases stored : put disk target content with ⟨failure | _, after⟩
  · rcases (put_error_cases stored).2 with ⟨problem, made⟩ | ⟨made, _⟩
    · rwa [made] at bounded
    · rwa [made] at bounded
  · obtain ⟨middle, made, written⟩ := put_ok_cases stored
    rw [made] at bounded
    obtain ⟨place, located, placed⟩ := write_ok written
    have current := bounded.current.trans (current_of_place? placed).symm
    refine ⟨current, ?_, ?_⟩
    · intro other stands
      dsimp only at stands
      rw [find?_place? placed] at stands
      split at stands
      · cases stands
      · exact bounded.directory other stands
    · intro other stands
      by_cases same : other = place
      · rw [same, ← destination_of_locate located, ← bounded.destination_eq]
        exact bears.file
      · apply bounded.file
        rwa [← file?_congr ((find?_place? placed other).trans (if_neg same))]

/-- A file that was put on a disk can be put on every disk between it and one that bears the
file. -/
theorem put_between (done : put start target content = (.ok (), after))
    (first : Grown start middle) (second : Grown middle later) (bears : later.Bears target) :
    ∃ final, put middle target content = (.ok (), final) ∧ Grown final later := by
  have bounded := put_bounded second bears content
  rcases stored : put middle target content with ⟨failure | _, final⟩
  · exfalso
    rw [stored] at bounded
    have starts := first.starts (starts_of_put done)
    obtain ⟨begun, made, written⟩ := put_ok_cases done
    rcases (put_error_cases stored).2 with ⟨problem, failed⟩ | ⟨made', problem, failed⟩
    · -- The directory was made before. It is not lacking more now, so it would fail for good.
      by_cases top : parent target = []
      · rw [makeParent, if_pos top] at failed
        cases failed
      have inside := makeParent_led (starts_of_put done) made top
      rw [makeParent, if_neg top] at made failed
      have fresh : ¬start.Opens (parent target) := by
        intro opens
        rw [(first.opens opens).makeDirectories_eq] at failed
        cases failed
      obtain ⟨problem', again⟩ := makeDirectories_again
        (starts.congr (parent_seen target).absolute) (shallow_of_made made fresh inside first)
        failed bounded
      rw [(bears.led top).makeDirectories_eq] at again
      cases again
    · -- In the same directory, the file can be written over the one that stands there later.
      have grown := makeParent_grown middle target
      rw [made'] at grown
      have based := based_of_led (grown.starts starts) (makeParent_led starts made')
      obtain ⟨problem', again⟩ := based.write_error bounded failed
      have reached := makeParent_bounded (first.trans second) bears.led
      rw [made] at reached
      obtain ⟨_, rewritten⟩ := reached.write_over written bears.file
      rw [rewritten] at again
      cases again
  · rw [stored] at bounded
    exact ⟨final, rfl, bounded⟩

/-! ### Files put below a root -/

/-- Nothing is put below a root that a NUL cuts off. -/
theorem uncut_of_put (canonical : Canonical path)
    (done : put disk (below root path) content = (.ok (), after)) : nul ∉ root := by
  intro cut
  have within : nul ∈ parent (below root path) := by
    obtain ⟨ending, whole, slashes⟩ := trimmed_eq root
    rw [whole, List.mem_append] at cut
    have front : textAt root [] <+: textAt root (segments path).dropLast :=
      textAt_front root fun name member =>
        names_segments canonical name (List.dropLast_subset _ member)
    rw [parent_below root canonical]
    exact front.subset (cut.resolve_right fun member => absurd (slashes nul member) (by decide))
  obtain ⟨middle, made, written⟩ := put_ok_cases done
  obtain ⟨place, located, placed⟩ := write_ok written
  obtain ⟨target, opened, directory⟩ :=
    makeParent_led (starts_of_put done) made (List.ne_nil_of_mem within)
  rw [locate_congr _ (untilNul_of_cut within), opened] at located
  cases located
  exact (place?_ok placed).1 directory

/-- A root leads through no place at which a file is put below it. -/
theorem not_passes_of_put (canonical : Canonical path) (plain : nul ∉ path)
    (done : put disk (below root path) content = (.ok (), after)) :
    ¬disk.Passes root (disk.destination (below root path)) := by
  rintro ⟨front, ⟨behind, parts⟩, led⟩
  obtain ⟨middle, made, written⟩ := put_ok_cases done
  obtain ⟨place, located, placed⟩ := write_ok written
  have same := makeParent_sameOutside disk (below root path)
  rw [made] at same
  have arrived : disk.destination (below root path) = place := by
    rw [← same.destination_eq, destination_of_locate located]
  -- Whatever stands on the way of the root is a directory when the file is written.
  have relative := canonical.head?_ne_slash
  have uncut := uncut_of_put canonical done
  have whole := Bytes.untilNul_eq_self uncut
  rw [whole] at parts led
  have followed := follow_of_locate located
  rw [absolute_below relative, whole, (seen_below uncut relative).1, ← parts, List.append_assoc,
    same.1] at followed
  have onward := follow_append_ok followed
  rw [led, arrived] at onward
  rcases more : behind ++ names (Bytes.untilNul path) with _ | ⟨name, rest⟩
  · have names := (List.append_eq_nil_iff.mp more).2
    rw [Bytes.untilNul_eq_self plain, names_canonical canonical] at names
    exact segments_ne_nil path names
  · rw [more] at onward
    exact (place?_ok placed).1 (follow_cons_ok onward).1

end Output

namespace Disk

variable {disk later : Disk} {root path : Bytes} {place : Place}

/-- Where a root leads somewhere, what stands below it is seen, unless its path is refused on all
disks. -/
theorem presence_below (uncut : nul ∉ root) (canonical : Canonical path) (plain : nul ∉ path)
    (led : ∃ home,
      disk.follow (if isAbsolute root then [] else disk.current) (names root) = .ok home)
    (current : later.current = disk.current)
    (located : later.locate (Path.below root path) = .ok place)
    (stands : disk.find? (disk.destination (Path.below root path)) ≠ none) :
    disk.presence (Path.below root path) = .ok true := by
  obtain ⟨home, opened⟩ := led
  have relative := canonical.head?_ne_slash
  have whole := Bytes.untilNul_eq_self uncut
  have seen := (seen_below uncut relative).1
  obtain ⟨entry, found⟩ := Option.ne_none_iff_exists'.mp stands
  have arrived : disk.destination (Path.below root path) = place := by
    rw [← destination_of_locate located, destination, destination, current]
  rw [arrived] at found
  have followed := follow_of_locate located
  rw [absolute_below relative, whole, seen, current] at followed
  have onward := follow_append_ok followed
  rw [reach_of_follow opened] at onward
  have down := follow_proper (fun name member => by
    rw [Bytes.untilNul_eq_self plain, names_canonical canonical] at member
    exact (canonical.segment_ne member).2) onward found
  have there : disk.locate (Path.below root path) = .ok place := by
    apply locate_of_follow located
    rw [absolute_below relative, whole, seen, follow_append opened]
    exact down
  rw [presence, status, there]
  dsimp only
  rw [found]
  cases entry with
  | directory => rfl
  | file content => simp [Output.wantsDirectory_below canonical uncut plain]

/-- Whether nothing stands where a path below a root leads, nor does the root lead through there. -/
structure Unclaimed (disk : Disk) (root path : Bytes) : Prop where
  free : disk.find? (disk.destination (Path.below root path)) = none
  off : ¬disk.Passes root (disk.destination (Path.below root path))

namespace Unclaimed

variable {disk after : Disk} {root path other content : Bytes}

theorem presence_ne (unclaimed : disk.Unclaimed root path) :
    disk.presence (Path.below root path) ≠ .ok true := by
  intro present
  obtain ⟨entry, state⟩ := presence_ok present
  obtain ⟨place, located, found⟩ := status_ok state
  have free := unclaimed.free
  rw [destination_of_locate located, found] at free
  cases free

/-- A place stays as it is while files are put elsewhere, unless one is put below it. -/
theorem put (unclaimed : disk.Unclaimed root path) (canonical : Canonical path)
    (plain : nul ∉ path) (canonical' : Canonical other) (plain' : nul ∉ other)
    (apart : ¬segments path <+: segments other)
    (done : Output.put disk (Path.below root other) content = (.ok (), after)) :
    after.Unclaimed root path := by
  have uncut := Output.uncut_of_put canonical' done
  have same := Output.put_sameOutside disk root content canonical'
  rw [done] at same
  have led := destination_canonical disk uncut canonical plain
  have kept := same.destination_eq (Path.below root path)
  refine ⟨?_, ?_⟩
  · rw [kept]
    apply find?_eq_none
    · intro stands
      have growth : (Output.put disk (Path.below root other) content).2.find?
          (disk.destination (Path.below root path)) = some .directory := by rwa [done]
      rcases Output.put_directory growth with stood | passes
      · rw [unclaimed.free] at stood
        cases stood
      rcases passes_below canonical'.head?_ne_slash passes with passes | ⟨front, part, reached⟩
      · exact unclaimed.off passes
      rw [Bytes.untilNul_eq_self plain', names_canonical canonical'] at part
      rw [led, reach_proper _ fun name member =>
        (canonical'.segment_ne (part.subset member)).2] at reached
      rw [List.append_cancel_left reached] at part
      exact apart part
    · have files := (Output.put_ok canonical' plain' (fun cut => absurd cut uncut) done).2.2
      rw [files, if_neg, file?, unclaimed.free]
      rw [led]
      intro met
      exact apart (List.append_cancel_left met ▸ List.prefix_rfl)
  · rw [kept]
    have off := unclaimed.off
    rwa [Passes, ← same.1] at off

end Unclaimed

end Disk

end Unbundle
