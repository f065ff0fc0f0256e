import Unbundle.Proofs.Disk.Without
import Unbundle.Proofs.Run.Lockstep
import Unbundle.Proofs.Run.Queue

/-!
Packages that cannot be read. Main statement: a run that goes on after failures comes to the same
when such packages are deleted from its input.
-/

namespace Unbundle

open Ascii Disk Unbundle.Path

namespace Workspace

variable {space : Workspace} {policy : OverwritePolicy} {root input : Bytes} {gone : List Bytes}

theorem mem_runStages {stage : Workspace × Package}
    (member : stage ∈ space.runStages policy root input) :
    ∃ found begun, space.findPackages input = .ok found ∧
      (space.log .info (modeText found)).prepare policy root = (true, begun) ∧
      space.runStages policy root input = begun.stages policy root
        (space.context.settings.failurePolicy.proceeds found.inDirectory) found.queue.packages := by
  have ran := space.ran policy root input
  generalize space.offers policy root input = offers, space.runStages policy root input = stages,
    space.unpack policy root input = result at ran member ⊢
  cases ran with
  | idle | unprepared => cases member
  | done finds _ ready => exact ⟨_, _, finds, ready, rfl⟩

/-- The packages that are reached are the first of the queue. -/
theorem stages_prefix (space : Workspace) (policy : OverwritePolicy) (root : Bytes)
    (proceeds : Bool) (packages : List Package) :
    (space.stages policy root proceeds packages).map Prod.snd <+: packages := by
  induction packages generalizing space with
  | nil => exact List.prefix_rfl
  | cons package packages ih =>
    rw [stages]
    rcases space.unpackPackage policy root package with ⟨result, after⟩
    dsimp only
    rw [List.map_cons, List.cons_prefix_cons]
    refine ⟨rfl, ?_⟩
    cases stopOf proceeds package result with
    | some reason => exact List.nil_prefix
    | none => exact ih _

/-- The workspace with packages deleted from its input. -/
def without (space : Workspace) (input : Bytes) (names : List Bytes) : Workspace :=
  { space with disk := space.disk.without (space.disk.destination input) names }

/-- Whether files of the input directory are packages that a run could not read. -/
def Failing (space : Workspace) (policy : OverwritePolicy) (root input : Bytes)
    (names : List Bytes) : Prop :=
  ∀ name ∈ names, space.disk.file? (space.disk.destination input ++ [name]) ≠ none ∧
    ∃ stage ∈ space.runStages policy root input,
      stage.2.path = below input name ∧ stage.1.Unreadable stage.2

theorem stage_unique (source : space.disk.status input = .ok .directory)
    (named : space.Named input) {stage other : Workspace × Package}
    (member : stage ∈ space.runStages policy root input)
    (member' : other ∈ space.runStages policy root input) (same : stage.2.path = other.2.path) :
    stage = other := by
  obtain ⟨queue, finds, nodup, _⟩ := findPackages_directory source named
  obtain ⟨found, begun, finds', _, staged⟩ := mem_runStages member
  obtain rfl := Except.ok.inj (finds'.symm.trans finds)
  have part := stages_prefix begun policy root
    (space.context.settings.failurePolicy.proceeds true) queue.packages
  have distinct := (part.map Package.path).sublist.nodup nodup
  rw [staged] at member member'
  rw [List.map_map] at distinct
  exact List.inj_on_of_nodup_map distinct member member' same

theorem keeps_of_failing
    (apart : ¬space.disk.destination root <+: space.disk.destination input ∧
      ¬space.disk.destination input <+: space.disk.destination root)
    (failing : space.Failing policy root input gone) :
    space.disk.Keeps (Omitted (space.disk.destination input) gone) root := by
  intro place passes
  apply kept_of_unlisted
  rintro name member rfl
  obtain ⟨stands, stage, reached, _⟩ := failing name member
  obtain ⟨found, begun, _, ready, _⟩ := mem_runStages reached
  obtain ⟨made, _⟩ := prepared_of_prepare ready
  have same := (space.disk.prepared_sameOutside policy root).2 _ (apart_concat apart name)
  rw [show space.disk.prepared policy root = (none, begun.disk) from made] at same
  -- The directories that the root was reached through stand, and a package is a file.
  rcases directory_of_prepared made passes with directory | inside
  · rw [← same, file?, directory] at stands
    exact stands rfl
  · exact apart_concat apart name inside

private theorem keeps_input (source : space.disk.status input = .ok .directory)
    (failing : space.Failing policy root input gone) :
    space.disk.Keeps (Omitted (space.disk.destination input) gone) input := by
  obtain ⟨place, located, directory⟩ := status_ok source
  intro target passes
  apply kept_of_unlisted
  rintro name member rfl
  have found := directory_of_passes located directory passes
  have stands := (failing name member).1
  rw [file?, found] at stands
  exact stands rfl

theorem shelters_of_apart
    (apart : ¬space.disk.destination root <+: space.disk.destination input ∧
      ¬space.disk.destination input <+: space.disk.destination root)
    (keeps : space.disk.Keeps (Omitted (space.disk.destination input) gone) root) :
    space.Shelters (Omitted (space.disk.destination input) gone) root := by
  intro path canonical
  apply keeps_below keeps _ _ canonical
  · intro place inside
    apply kept_of_unlisted
    rintro name member rfl
    exact apart_concat apart name inside
  · apply kept_of_unlisted
    intro name member same
    apply apart.2
    have above := List.dropLast_prefix (space.disk.destination root)
    rw [← same] at above
    exact (List.prefix_append _ _).trans above

theorem readsAlike_of_left (named : space.Named input)
    (keeps : space.disk.Keeps (Omitted (space.disk.destination input) gone) input)
    {package : Package} {name : Bytes}
    (stands : space.disk.file? (space.disk.destination input ++ [name]) ≠ none)
    (led : below input name = package.path) (left : name ∉ gone) :
    space.ReadsAlike (Omitted (space.disk.destination input) gone) id package := by
  intro disk other alike current
  obtain ⟨fileName, plain⟩ := named name stands
  have kept : Kept (Omitted (space.disk.destination input) gone)
      (space.disk.destination input ++ [name]) := by
    apply kept_of_unlisted
    intro listed member same
    have last := List.append_cancel_left same
    rw [List.singleton_inj.mp last] at member
    exact left member
  have reads := keeps_name keeps fileName.nonempty ⟨fileName.plain, plain⟩ fileName.proper kept
  rw [led] at reads
  have files := alike.fileAt? (reads.congr current)
  generalize disk.fileAt? package.path = file, other.fileAt? package.path = file' at files ⊢
  cases files with
  | none => rfl
  | some same =>
    rcases same with rfl | ⟨impossible, _⟩
    · rfl
    · cases impossible

theorem findPackages_without (source : space.disk.status input = .ok .directory)
    (named : space.Named input) (failing : space.Failing policy root input gone) :
    ∃ queue queue', space.findPackages input = .ok ⟨true, queue⟩ ∧
      (space.without input gone).findPackages input = .ok ⟨true, queue'⟩ ∧
      queue'.packages =
        queue.packages.filter (decide <| ·.path ∉ gone.map (below input)) := by
  have keeps := keeps_input source failing
  have alike := space.disk.without_alike (space.disk.destination input) gone
  have source' : (space.without input gone).disk.status input = .ok .directory :=
    (alike.opens keeps (status_ok source)).status_eq
  obtain ⟨place, located, directory⟩ := status_ok source
  obtain rfl := destination_of_locate located
  have kept (name : Bytes) :
      (space.without input gone).disk.file? (space.disk.destination input ++ [name]) ≠ none ↔
        space.disk.file? (space.disk.destination input ++ [name]) ≠ none ∧
          decide (below input name ∉ gone.map (below input)) = true := by
    have file := (space.disk.without_eq (space.disk.destination input) gone).2.2
      (space.disk.destination input ++ [name])
    rw [without, file, decide_eq_true_eq]
    by_cases member : name ∈ gone
    · rw [if_pos ⟨name, member, rfl⟩]
      constructor
      · intro impossible
        exact absurd rfl impossible
      · rintro ⟨_, unlisted⟩
        exact absurd (List.mem_map_of_mem member) unlisted
    · rw [if_neg]
      · constructor
        · intro stands
          refine ⟨stands, ?_⟩
          intro listed
          obtain ⟨other, member', same⟩ := List.mem_map.mp listed
          rw [below_inj named (failing other member').1 stands same] at member'
          exact member member'
        · exact And.left
      · rintro ⟨other, member', same⟩
        rw [List.singleton_inj.mp (List.append_cancel_left same)] at member'
        exact member member'
  obtain ⟨queue, queue', listed, listed', queued⟩ :=
    @Queue.packages_filter space.context.settings space.disk (space.without input gone).disk input
      (space.disk.destination input) (decide <| · ∉ gone.map (below input)) located source
      ((alike.locate_eq keeps).trans located) source'
      (fun name stands => (named name stands).1.plain) kept
  exact ⟨queue, queue', findPackages_ofDirectory source listed,
    findPackages_ofDirectory source' listed', queued⟩

/-- Deleting packages that a run could not read changes nothing that the run leaves behind, and no
report of the packages that are left, as long as there are any. -/
theorem unpack_without
    (fresh : space.context = { settings := space.context.settings })
    (source : space.disk.status input = .ok .directory)
    (plain : space.context.settings.ledgerPath = [])
    (goesOn : space.context.settings.failurePolicy ≠ .abort)
    (apart : ¬space.disk.destination root <+: space.disk.destination input ∧
      ¬space.disk.destination input <+: space.disk.destination root)
    (named : space.Named input) (failing : space.Failing policy root input gone)
    (left : ∃ found, (space.without input gone).findPackages input = .ok found ∧
      found.queue.packages ≠ []) :
    ((space.without input gone).unpack policy root input).1.packages =
        (space.unpack policy root input).1.packages.filter
          (decide <| ·.path ∉ gone.map (below input)) ∧
      ((space.without input gone).unpack policy root input).1.abort =
        (space.unpack policy root input).1.abort ∧
      SameResults (space.disk.destination root) (space.unpack policy root input).2
        ((space.without input gone).unpack policy root input).2 := by
  have keeps := keeps_of_failing apart failing
  have alike : Alike (Omitted (space.disk.destination input) gone) space
      (space.without input gone) :=
    .of_disks fresh rfl rfl (space.disk.without_alike _ gone)
  obtain ⟨queue, queue', finds, finds', queued⟩ := findPackages_without source named failing
  obtain ⟨_, same, nodup, origin⟩ := findPackages_directory source named
  obtain ⟨_, rfl⟩ := Found.mk.inj (Except.ok.inj (finds.symm.trans same))
  have filled : queue'.packages ≠ [] := by
    obtain ⟨found, found', some⟩ := left
    rwa [← Except.ok.inj (finds'.symm.trans found')] at some
  have reads (package : Package) (member : package ∈ queue.packages)
      (kept : decide (package.path ∉ gone.map (below input)) = true) :
      space.ReadsAlike (Omitted (space.disk.destination input) gone) id package := by
    obtain ⟨name, stands, led⟩ := origin package member
    refine readsAlike_of_left named (keeps_input source failing) stands led ?_
    intro listed
    rw [← led] at kept
    exact of_decide_eq_true kept (List.mem_map_of_mem listed)
  have fails (stage : Workspace × Package) (member : stage ∈ space.runStages policy root input)
      (lacking : decide (stage.2.path ∉ gone.map (below input)) = false) :
      stage.1.Unreadable stage.2 := by
    obtain ⟨name, listed, led⟩ :=
      List.mem_map.mp (Decidable.not_not.mp (of_decide_eq_false lacking))
    obtain ⟨_, other, reached, path, unreadable⟩ := failing name listed
    rwa [stage_unique source named member reached (led.symm.trans path.symm)]
  have proceeds : space.context.settings.failurePolicy.proceeds true = true := by
    cases policies : space.context.settings.failurePolicy with
    | proceed => rfl
    | auto => rfl
    | abort => exact absurd policies goesOn
  have runs := unpack_alike alike plain finds finds' rfl queued (fun _ => filled) keeps
    (shelters_of_apart apart keeps) reads fails (fun _ _ _ => proceeds)
  have reports := runs.packages
  rw [PackageReport.flagged_id, PackageReport.flagged_id] at reports
  refine ⟨reports, runs.abort, runs.space.sameResults ?_⟩
  rintro place content content' inside ⟨_, name, member, rfl⟩
  exact apart_concat apart name inside

/-- A main package that is cut off in its salt, and a subpackage in clear. -/
def damagedSpace : Workspace where
  disk := (Output.put
    (Output.put Disk.empty (utf8 "in/app.wxapkg") (utf8 "V1MMWX-salt")).2
    (utf8 "in/a.wxapkg") (Container.encode [⟨utf8 "/a.txt", utf8 "hi"⟩])).2

theorem unpack_without_sample :
    (damagedSpace.unpack .clear (utf8 "out") (utf8 "in")).1.packages.map PackageReport.ok =
        [false, true] ∧
      SameResults [utf8 "out"] (damagedSpace.unpack .clear (utf8 "out") (utf8 "in")).2
        ((damagedSpace.without (utf8 "in") [utf8 "app.wxapkg"]).unpack .clear (utf8 "out")
          (utf8 "in")).2 := by
  have failing : damagedSpace.Failing .clear (utf8 "out") (utf8 "in") [utf8 "app.wxapkg"] := by
    rw [Failing]
    decide +kernel
  have led : damagedSpace.disk.destination (utf8 "out") = [utf8 "out"] := by decide +kernel
  refine ⟨by decide +kernel, ?_⟩
  rw [← led]
  exact (unpack_without rfl (by decide +kernel) rfl (by decide) (by decide +kernel)
    (named_of_list (by decide +kernel)) failing
    ⟨⟨true, ⟨[], [utf8 "in/a.wxapkg"]⟩⟩, by decide +kernel, by decide⟩).2.2

end Workspace

end Unbundle
