import Unbundle.Proofs.Output.Following
import Unbundle.Proofs.Run.Lockstep
import Unbundle.Proofs.Run.Queue
import Unbundle.Proofs.Run.Reconstruction
import Unbundle.Proofs.Run.Renewal

/-!
Runs repeated with the same arguments. Main statement: a run that got past the preparation of its
output root leaves a disk that the same run does not change, if the root is cleared in the same way
again, or is not cleared, no file lies too deep, and none that may be kept is cut off, by a NUL in
its path or by the device.
-/

namespace Unbundle

open Ascii Disk Unbundle.Path

theorem Disk.Alike.eq_of_none {disk other : Disk}
    (alike : Disk.Alike (fun _ _ _ => False) disk other) : other = disk :=
  Disk.ext alike.current fun place =>
    find?_congr (alike.directory place) ((alike.file place).resolve_right id)

namespace Workspace

variable {space other begun : Workspace} {policy : OverwritePolicy} {root input : Bytes}
  {package : Package} {packages : List Package} {found : Found} {later final start : Disk}
  {proceeds : Bool} {region : Place → Prop}

/-! ### What a run finds again -/

private theorem findPackages_congr (disk : other.disk = space.disk)
    (settings : other.context.settings = space.context.settings) (input : Bytes) :
    other.findPackages input = space.findPackages input := by
  rw [findPackages, findPackages, disk, settings]

theorem findPackages_again (finds : space.findPackages input = .ok found)
    (named : space.Named input) (settings : other.context.settings = space.context.settings)
    (current : other.disk.current = space.disk.current)
    (directory : space.disk.find? (space.disk.destination input) = some .directory →
      other.disk.find? (space.disk.destination input) = some .directory)
    (top : other.disk.file? (space.disk.destination input) =
      space.disk.file? (space.disk.destination input))
    (files : ∀ name, other.disk.file? (space.disk.destination input ++ [name]) =
      space.disk.file? (space.disk.destination input ++ [name])) :
    (∃ reason, other.findPackages input = .error reason) ∨
      ∃ found', other.findPackages input = .ok found' ∧
        found'.inDirectory = found.inDirectory ∧ found'.queue.packages = found.queue.packages := by
  have led : other.disk.destination input = space.disk.destination input := by
    rw [destination, destination, current]
  cases state' : other.disk.status input with
  | error problem => exact .inl ⟨_, by rw [findPackages, state']⟩
  | ok entry' =>
    right
    obtain ⟨place', located', found'⟩ := status_ok state'
    have arrived' := destination_of_locate located'
    rw [led] at arrived'
    subst arrived'
    rcases found_cases finds with ⟨content, state, rfl⟩ | ⟨state, queue, listed, rfl⟩
    · obtain ⟨place, located, stands⟩ := status_ok state
      obtain rfl := destination_of_locate located
      cases entry' with
      | directory =>
        rw [file?_eq_some.mpr stands, file?, found'] at top
        cases top
      | file content' => exact ⟨_, findPackages_ofFile state', rfl, by rw [settings]⟩
    · obtain ⟨place, located, stands⟩ := status_ok state
      obtain rfl := destination_of_locate located
      cases entry' with
      | file content' =>
        rw [directory stands] at found'
        cases found'
      | directory =>
        have plain (name : Bytes)
            (stands : space.disk.file? (space.disk.destination input ++ [name]) ≠ none) :
            slash ∉ name := (named name stands).1.plain
        obtain ⟨_, again, first, second, same⟩ :=
          @Queue.packages_filter space.context.settings _ _ _ _ (fun _ => true) located state
            located' state' plain (by
              intro name
              rw [files, and_iff_left rfl])
        obtain rfl := Except.ok.inj (listed.symm.trans first)
        refine ⟨⟨true, again⟩, findPackages_ofDirectory state' (by rw [settings, second]), rfl, ?_⟩
        rw [same, List.filter_eq_self.mpr fun _ _ => rfl]

/-- What is named below a directory stands in it. -/
theorem based_below {disk : Disk} {name : Bytes} (opens : disk.Opens input)
    (fileName : FileName name) : disk.Based (below input name) := by
  have proper : Path.Names ([] ++ [name]) := by
    intro other member
    rw [List.mem_singleton.mp member]
    exact ⟨fileName.nonempty, fileName.plain⟩
  have parts : segments name = [] ++ [name] := List.splitOn_eq_singleton fileName.plain
  apply Opens.based
  rw [below_eq_textAt, parts, parent_textAt input proper]
  exact opens.textAt

theorem fileAt?_of_package (finds : space.findPackages input = .ok found)
    (named : space.Named input)
    (apart : ¬space.disk.destination root <+: space.disk.destination input ∧
      ¬space.disk.destination input <+: space.disk.destination root)
    (member : package ∈ found.queue.packages) (grown : Grown space.disk later)
    (same : SameOutside (space.disk.destination root <+: ·) space.disk later) :
    later.fileAt? package.path = space.disk.fileAt? package.path := by
  rcases package_cases finds named member with
    ⟨path, content, state⟩ | ⟨source, name, fileName, plain, path⟩
  · have stands : space.disk.fileAt? input = some content := by rw [fileAt?, state]
    rw [path, stands]
    exact grown.fileAt?_eq stands (same.2 _ apart.1)
  · have opens : space.disk.Opens input := status_ok source
    rw [← path]
    apply Option.ext
    intro content
    have led := @destination_below space.disk input name fileName.nonempty ⟨fileName.plain, plain⟩
      fileName.proper
    have outside :
        space.disk.destination (below input name) = space.disk.destination input ++ [name] →
        later.file? (space.disk.destination (below input name)) =
          space.disk.file? (space.disk.destination (below input name)) := by
      intro led
      rw [led]
      exact same.2 _ (apart_concat apart name)
    constructor
    · intro stands
      obtain ⟨located, file, ends⟩ := fileAt?_eq_some.mp stands
      have there := ((based_below opens fileName).locate_eq grown located).1
      have arrived := destination_of_locate there
      rw [← arrived] at file there
      refine fileAt?_eq_some.mpr ⟨there, ?_, ends⟩
      rcases led with top | below
      · rw [top, file?, grown.directory _ opens.destination_eq] at file
        cases file
      · rwa [outside below] at file
    · intro stands
      obtain ⟨_, file, _⟩ := fileAt?_eq_some.mp stands
      apply grown.fileAt?_eq stands
      apply outside
      apply led.resolve_left
      intro same
      rw [same, file?, opens.destination_eq] at file
      cases file

/-! ### Packages unpacked again -/

private theorem unpackPackage_sound
    (sound : space.context.keyring.Sound space.context.settings.sealing)
    (policy : OverwritePolicy) (root : Bytes) (package : Package) :
    (space.unpackPackage policy root package).2.context.keyring.Sound
      (space.unpackPackage policy root package).2.context.settings.sealing := by
  have alike : Alike (fun _ _ _ => False) space space :=
    ⟨⟨.refl _, rfl, rfl⟩, rfl, rfl, rfl, rfl, sound, sound⟩
  have shelters : space.Shelters (fun _ _ _ => False) root :=
    fun _ _ _ _ _ _ impossible => impossible.elim
  exact (@Alike.unpackPackage _ root id _ _ alike shelters policy package rfl).2.sound

theorem unpackQueue_same (fresh : space.context = { settings := space.context.settings })
    (context : other.context = space.context) (platform : other.platform = space.platform)
    (disk : other.disk = space.disk) (policy : OverwritePolicy) (root : Bytes) (proceeds : Bool)
    (packages : List Package) :
    (other.unpackQueue policy root proceeds packages).2.2.disk =
      (space.unpackQueue policy root proceeds packages).2.2.disk := by
  have alike : Alike (fun _ _ _ => False) space other :=
    .of_disks fresh context platform (by rw [disk]; exact .refl _)
  have shelters : space.Shelters (fun _ _ _ => False) root :=
    fun _ _ _ _ _ _ impossible => impossible.elim
  have queues := @unpackQueue_alike _ policy root id _ _ packages space (fun _ => true) proceeds
    alike shelters rfl rfl rfl
    (by
      intro package _ _ disk other alike _
      rw [alike.eq_of_none])
    (by
      intro stage _ impossible
      cases impossible)
    (by
      intro package _ impossible
      cases impossible)
  rw [List.filter_eq_self.mpr fun _ _ => rfl] at queues
  exact queues.space.disk.eq_of_none

/-- A run on its way to a final disk, and another one on a disk that has got there. -/
structure Follows (policy : OverwritePolicy) (root : Bytes) (final : Disk)
    (space other : Workspace) : Prop where
  output : Output.Follows policy root final space.output other.output
  settings : other.context.settings = space.context.settings
  platform : other.platform = space.platform
  sound : space.context.keyring.Sound space.context.settings.sealing
  sound' : other.context.keyring.Sound other.context.settings.sealing

/-- Whether files are offered for paths that do not lie too deep, and if they may be kept, whether
the system sees their paths whole and the device takes all of them. -/
structure Reachable (device : Device) (policy : OverwritePolicy) (root : Bytes)
    (offers : List Offer) : Prop where
  few : ∀ offer ∈ offers, (segments offer.path).length ≤ maxDepth + 1
  seen : policy = .keep → ∀ offer ∈ offers,
    nul ∉ offer.path ∧ device.cut? (below root offer.path) offer.content = none

theorem Reachable.of_append {device : Device} {first second : List Offer}
    (reachable : Reachable device policy root (first ++ second)) :
    Reachable device policy root first ∧ Reachable device policy root second := by
  obtain ⟨few, few'⟩ := List.forall_mem_append.mp reachable.few
  exact ⟨⟨few, fun keeps => (List.forall_mem_append.mp (reachable.seen keeps)).1⟩,
    few', fun keeps => (List.forall_mem_append.mp (reachable.seen keeps)).2⟩

theorem unpackPackage_ends {contents : Contents} {plan : List Action}
    (read : (space.readPackage (space.appIdOf package.path) package.path).1 = .ok contents)
    (planned : Plan.ofEntries space.platform.json space.context.settings package.path contents.bytes
      contents.entries = plan) :
    SameEnd (space.output.offerEach policy root (Plan.offers plan)).1
      (space.unpackPackage policy root package).1 := by
  obtain ⟨output, settings⟩ :=
    readPackage_sameOutput space (space.appIdOf package.path) package.path
  have platform := platform_readPackage space (space.appIdOf package.path) package.path
  have performs (opened : Workspace) (same : opened.output = space.output) :
      ((opened.openRegistry (space.appIdOf package.path)).performAll
          (space.appIdOf package.path) policy root plan).1 =
        (space.output.offerEach policy root (Plan.offers plan)).1 := by
    rw [← same]
    exact (performAll_output ..).1
  have unpacked := space.unpacks policy root package
  generalize space.unpackPackage policy root package = result at unpacked ⊢
  obtain ⟨result, last⟩ := result
  dsimp only at unpacked ⊢
  cases unpacked with
  | unread read' =>
    rw [read'] at read
    cases read
  | failed read' performed =>
    rw [read'] at read output settings platform
    cases read
    rw [platform, settings, planned] at performed
    rw [← performs _ output, performed]
    exact .error rfl
  | done read' planned' performed checks =>
    rw [read'] at read output settings platform
    cases read
    rw [platform, settings, planned] at planned'
    subst planned'
    rw [← performs _ output, performed]
    exact .ok _ _

theorem unpackPackage_unread {failure : Failure}
    (read : (space.readPackage (space.appIdOf package.path) package.path).1 = .error failure) :
    (space.unpackPackage policy root package).1 = .error failure ∧
      (space.unpackPackage policy root package).2.output = space.output := by
  have reading := readPackage_sameOutput space (space.appIdOf package.path) package.path
  rw [unpackPackage]
  dsimp only
  generalize space.readPackage (space.appIdOf package.path) package.path = result at read reading ⊢
  obtain ⟨answer, after⟩ := result
  obtain rfl : answer = .error failure := read
  exact ⟨rfl, reading.1⟩

namespace Follows

theorem log (follows : Follows policy root final space other) (level level' : Level)
    (text text' : Bytes) :
    Follows policy root final (space.log level text) (other.log level' text') :=
  ⟨follows.output, follows.settings, follows.platform, follows.sound, follows.sound'⟩

/-- One more package ends the same way in both runs. -/
theorem unpackPackage (follows : Follows policy root final space other)
    (reads : other.disk.fileAt? package.path = space.disk.fileAt? package.path)
    (reachable : Reachable space.platform.device policy root (space.offersOf policy root package))
    (reaches : Grown (space.unpackPackage policy root package).2.disk final) :
    SameEnd (space.unpackPackage policy root package).1
        (other.unpackPackage policy root package).1 ∧
      Follows policy root final (space.unpackPackage policy root package).2
        (other.unpackPackage policy root package).2 := by
  have appId : other.appIdOf package.path = space.appIdOf package.path := by
    rw [appIdOf, appIdOf, follows.settings]
  have settings := (space.unpackPackage_output policy root package).2
  have settings' := (other.unpackPackage_output policy root package).2
  have sound := unpackPackage_sound follows.sound policy root package
  have sound' := unpackPackage_sound follows.sound' policy root package
  have kept := settings'.trans (follows.settings.trans settings.symm)
  have still : (other.unpackPackage policy root package).2.platform =
      (space.unpackPackage policy root package).2.platform := by
    rw [platform_unpackPackage, platform_unpackPackage, follows.platform]
  have read' := (readPackage_sound follows.sound' (space.appIdOf package.path) package.path).1
  rw [follows.settings, follows.platform, reads,
    ← (readPackage_sound follows.sound (space.appIdOf package.path) package.path).1] at read'
  cases read : (space.readPackage (space.appIdOf package.path) package.path).1 with
  | error failure =>
    rw [read, ← appId] at read'
    obtain ⟨result, output⟩ := @unpackPackage_unread _ policy root _ _ read
    obtain ⟨result', output'⟩ := @unpackPackage_unread _ policy root _ _ read'
    rw [result, result']
    refine ⟨.error rfl, ⟨?_, kept, still, sound, sound'⟩⟩
    rw [output, output']
    exact follows.output
  | ok contents =>
    rw [read, ← appId] at read'
    have ends := @unpackPackage_ends _ policy root _ _ _ read rfl
    have ends' := @unpackPackage_ends _ policy root _ _ _ read' rfl
    have output := (space.unpackPackage_read policy root package read rfl).1
    have output' := (other.unpackPackage_read policy root package read' rfl).1
    rw [follows.settings, follows.platform] at ends' output'
    rw [offersOf, read] at reachable
    have canonical (offer : Offer)
        (member : offer ∈ space.output.attempted policy root
          (Plan.offers (Plan.ofEntries space.platform.json space.context.settings package.path
            contents.bytes contents.entries))) : Canonical offer.path :=
      Plan.canonical_ofEntries (canonical_of_readPackage read)
        ((Output.attempted_prefix _ _).subset member)
    obtain ⟨same, followed⟩ := follows.output.offerEach canonical reachable.few reachable.seen
      (by rw [← output]; exact reaches)
    refine ⟨ends.symm.trans (same.trans ends'), ⟨?_, kept, still, sound, sound'⟩⟩
    rw [output, output']
    exact followed

end Follows

theorem isSome_stopOf {result result' : Except Failure PackageReport}
    (ends : SameEnd result result') (proceeds : Bool) (package : Package) :
    (stopOf proceeds package result').isSome = (stopOf proceeds package result).isSome := by
  cases ends with
  | ok report report' => rfl
  | @error failure failure' same =>
    rw [stopOf, stopOf, stopReason?, stopReason?, same]
    by_cases collision : failure.isCollision = true
    · rw [if_pos collision, if_pos collision]
      rfl
    · rw [if_neg collision, if_neg collision]
      cases proceeds <;> rfl

theorem unpackPackage_disk (space : Workspace) (policy : OverwritePolicy) (root : Bytes)
    (package : Package) :
    Grown space.disk (space.unpackPackage policy root package).2.disk ∧
      SameOutside (space.disk.destination root <+: ·) space.disk
        (space.unpackPackage policy root package).2.disk := by
  have grown := space.output.offerAll_grown policy root (space.offersOf policy root package)
  have same := space.output.offerAll_sameOutside policy root
    fun _ member => @canonical_offersOf space policy root package _ member
  rw [← (space.unpackPackage_output policy root package).1] at grown same
  exact ⟨grown, same⟩

/-- Whether packages are read from a disk as from all that have grown from it outside a root. -/
def Steady (start : Disk) (root : Bytes) (packages : List Package) : Prop :=
  ∀ package ∈ packages, ∀ later, Grown start later →
    SameOutside (start.destination root <+: ·) start later →
      later.fileAt? package.path = start.fileAt? package.path

/-- A queue unpacked once more ends the same way. -/
theorem Follows.unpackQueue (follows : Follows policy root final space other)
    (steady : Steady start root packages) (grown : Grown start space.disk)
    (outside : SameOutside (start.destination root <+: ·) start space.disk)
    (ends : SameOutside (start.destination root <+: ·) start final)
    (reachable : Reachable space.platform.device policy root
      (space.queueOffers policy root proceeds packages))
    (reaches : Grown (space.unpackQueue policy root proceeds packages).2.2.disk final) :
    Follows policy root final (space.unpackQueue policy root proceeds packages).2.2
      (other.unpackQueue policy root proceeds packages).2.2 := by
  induction packages generalizing space other with
  | nil => exact follows
  | cons package packages ih =>
    obtain ⟨first, rest⟩ := List.forall_mem_cons.mp steady
    have whole := (space.unpackQueue_grown policy root proceeds (package :: packages)).trans reaches
    have grown' : Grown start other.disk := (grown.trans whole).trans follows.output.grown
    have outside' : SameOutside (start.destination root <+: ·) start other.disk := by
      refine ⟨grown'.current, fun place out => ?_⟩
      rcases follows.output.file place with same | same
      · exact same.trans (outside.2 place out)
      · exact same.trans (ends.2 place out)
    have reads := (first other.disk grown' outside').trans (first space.disk grown outside).symm
    obtain ⟨further, kept⟩ := space.unpackPackage_disk policy root package
    rw [outside.destination_eq] at kept
    have unpacked := follows.unpackPackage reads
    have unmoved := space.platform_unpackPackage policy root package
    rw [unpackQueue_cons] at reaches
    rw [queueOffers, stages] at reachable
    rw [unpackQueue_cons, unpackQueue_cons]
    generalize space.unpackPackage policy root package = result,
      other.unpackPackage policy root package = result'
        at unpacked further kept reachable reaches unmoved ⊢
    obtain ⟨answer, after⟩ := result
    obtain ⟨answer', after'⟩ := result'
    dsimp only at unpacked further kept reachable reaches unmoved ⊢
    rw [List.flatMap_cons] at reachable
    obtain ⟨few, fewer⟩ := reachable.of_append
    cases stop : stopOf proceeds package answer with
    | some reason =>
      rw [stop] at reaches
      obtain ⟨ended, still⟩ := unpacked few reaches
      have stops := isSome_stopOf ended proceeds package
      rw [stop] at stops
      obtain ⟨reason', stop'⟩ := Option.isSome_iff_exists.mp stops
      rw [stop']
      exact (still.log ..).log ..
    | none =>
      rw [stop] at reaches fewer
      have onward := (after.showProgress (.ofReport (reportOf package answer))).unpackQueue_grown
        policy root proceeds packages
      obtain ⟨ended, still⟩ := unpacked few (onward.trans reaches)
      have stops := isSome_stopOf ended proceeds package
      rw [stop] at stops
      have stop' := Option.not_isSome_iff_eq_none.mp (Bool.eq_false_iff.mp stops)
      rw [stop']
      rw [← unmoved] at fewer
      exact @ih (after.showProgress _) (after'.showProgress _) (still.log ..) rest
        (grown.trans further) (outside.trans kept) fewer reaches

theorem unpackQueue_again (fresh : begun.context = { settings := begun.context.settings })
    (ready : start.prepared policy root = (none, begun.disk))
    (renewable : policy = .clear → start.Renewable root) (steady : Steady start root packages)
    (reachable : policy ≠ .clear →
      Reachable begun.platform.device policy root
        (begun.queueOffers policy root proceeds packages)) :
    ∃ disk, (begun.unpackQueue policy root proceeds packages).2.2.disk.prepared policy root =
        (none, disk) ∧
      ∀ other : Workspace, other.context = begun.context → other.platform = begun.platform →
        other.disk = disk →
        (other.unpackQueue policy root proceeds packages).2.2.disk =
          (begun.unpackQueue policy root proceeds packages).2.2.disk := by
  have output := (begun.unpackQueue_output policy root proceeds packages).1
  have grown := begun.unpackQueue_grown policy root proceeds packages
  have canonical (offer : Offer)
      (member : offer ∈ begun.queueOffers policy root proceeds packages) : Canonical offer.path :=
    canonical_queueOffers member
  by_cases starts : begun.disk.Starts root
  · obtain ⟨middle, made⟩ := made_of_prepared ready
    have opens : begun.output.disk.Opens root := makeDirectories_starts made starts
    by_cases clears : policy = .clear
    -- The second run clears what the first one left, and so starts where the first one did.
    · subst clears
      have intact := Output.offerAll_intact opens .clear canonical
      rw [← output] at intact
      exact ⟨begun.disk, prepared_again ready opens grown intact (renewable rfl),
        fun other context platform disk => unpackQueue_same fresh context platform disk ..⟩
    -- The second run starts where the first one ended, and follows it.
    · have still : start.makeDirectories root = (none, begun.disk) ∧
          (begun.unpackQueue policy root proceeds packages).2.2.disk.prepared policy root =
            (none, (begun.unpackQueue policy root proceeds packages).2.2.disk) := by
        have remade := (grown.opens opens).makeDirectories_eq
        cases policy with
        | keep => exact ⟨ready, remade⟩
        | merge => exact ⟨ready, remade⟩
        | clear => exact absurd rfl clears
      have rooted := start.makeDirectories_grown root
      have outside := start.prepared_sameOutside policy root
      have written := (begun.unpackQueue_sameOutside policy root proceeds packages).1
      rw [still.1] at rooted
      rw [ready] at outside
      rw [outside.destination_eq] at written
      refine ⟨_, still.2, ?_⟩
      intro other context platform disk
      have sound : begun.context.keyring.Sound begun.context.settings.sealing := by
        rw [fresh]
        exact Sealed.Keyring.sound_empty _
      have follows : Follows policy root
          (begun.unpackQueue policy root proceeds packages).2.2.disk begun other :=
        ⟨.of_final opens (congrArg Context.outputs context) (congrArg Platform.device platform) disk,
          congrArg Context.settings context, platform, sound, by rwa [context]⟩
      have ended := follows.unpackQueue steady rooted outside (outside.trans written)
        (reachable clears) (.refl _)
      exact ended.output.disk_eq rfl
  -- No path below the root leads anywhere.
  · have same : (begun.unpackQueue policy root proceeds packages).2.2.disk = begun.disk :=
      (congrArg Output.disk output).trans (Output.offerAll_adrift starts policy canonical)
    refine ⟨begun.disk, ?_, ?_⟩
    · rw [same]
      exact prepared_adrift ready starts
    · intro other context platform disk
      exact unpackQueue_same fresh context platform disk ..

/-! ### Whole runs again -/

private theorem found_of_busy (busy : ¬space.Idle input) :
    ∃ found, space.findPackages input = .ok found ∧ found.queue.packages ≠ [] := by
  obtain ⟨found, search⟩ := not_forall.mp busy
  exact ⟨found, Classical.not_imp.mp search⟩

/-- A run that has nothing to unpack leaves the disk as it is. -/
theorem unpack_idle (idle : space.Idle input) (policy : OverwritePolicy) (root : Bytes) :
    (space.unpack policy root input).2.disk = space.disk := by
  have ran := space.ran policy root input
  generalize space.offers policy root input = offers, space.runStages policy root input = stages,
    space.unpack policy root input = result at ran ⊢
  cases ran with
  | idle => rfl
  | unprepared finds filled => exact absurd (idle _ finds) filled
  | done finds filled => exact absurd (idle _ finds) filled

/-- A run that has its output root prepared offers what its packages do, and comes to what they do
to the disk if it is recorded in no ledger. -/
private theorem ran_ready (finds : space.findPackages input = .ok found)
    (filled : found.queue.packages ≠ [])
    (ready : (space.log .info (modeText found)).prepare policy root = (true, begun)) :
    space.offers policy root input = begun.queueOffers policy root
        (space.context.settings.failurePolicy.proceeds found.inDirectory) found.queue.packages ∧
      (space.context.settings.ledgerPath = [] →
        (space.unpack policy root input).2.disk = (begun.unpackQueue policy root
          (space.context.settings.failurePolicy.proceeds found.inDirectory)
          found.queue.packages).2.2.disk) := by
  have ran := space.ran policy root input
  generalize space.offers policy root input = offers, space.runStages policy root input = stages,
    space.unpack policy root input = result at ran ⊢
  cases ran with
  | idle idle => exact absurd (idle _ finds) filled
  | unprepared finds' _ left =>
    obtain rfl := Except.ok.inj (finds.symm.trans finds')
    cases ready.symm.trans left
  | @done _ _ after reports stop finds' _ ready' _ context _ unpacked =>
    obtain rfl := Except.ok.inj (finds.symm.trans finds')
    obtain ⟨-, rfl⟩ := Prod.mk.inj (ready.symm.trans ready')
    refine ⟨rfl, fun plain => ?_⟩
    have kept := (begun.unpackQueue_output policy root
      (space.context.settings.failurePolicy.proceeds found.inDirectory) found.queue.packages).2
    rw [unpacked] at kept ⊢
    have quiet : after.context.settings.ledgerPath = [] := by
      rw [kept, context]
      exact plain
    exact (conclude_quiet quiet root reports stop).2.disk

theorem found_again (finds : space.findPackages input = .ok found) (named : space.Named input)
    (apart : ¬space.disk.destination root <+: space.disk.destination input ∧
      ¬space.disk.destination input <+: space.disk.destination root)
    (ready : space.disk.prepared policy root = (none, start)) (grown : Grown start other.disk)
    (outside : SameOutside (space.disk.destination root <+: ·) space.disk other.disk)
    (settings : other.context.settings = space.context.settings) {found' : Found}
    (finds' : other.findPackages input = .ok found') :
    found'.inDirectory = found.inDirectory ∧ found'.queue.packages = found.queue.packages := by
  have directory (stands : space.disk.find? (space.disk.destination input) = some .directory) :
      other.disk.find? (space.disk.destination input) = some .directory := by
    have left : (space.disk.prepared policy root).2.find? (space.disk.destination input) =
        some .directory := directory_of_prepare stands fun _ _ => apart.1
    rw [ready] at left
    exact grown.directory _ left
  rcases findPackages_again finds named settings outside.1 directory (outside.2 _ apart.1)
    fun name => outside.2 _ (apart_concat apart name) with ⟨reason, none⟩ | ⟨again, same, agree⟩
  · rw [none] at finds'
    cases finds'
  · rw [same] at finds'
    cases finds'
    exact agree

/-- Whether a run that got past the preparation of its output root can be repeated: the root is
cleared in the same way again, or it is not cleared and no path of a file is out of reach. -/
structure Repeatable (space : Workspace) (policy : OverwritePolicy) (root input : Bytes) :
    Prop where
  renewable : policy = .clear → space.disk.Renewable root
  reachable : policy ≠ .clear →
    Reachable space.platform.device policy root (space.offers policy root input)

/-- A run that is repeated from a fresh context, with the same arguments, leaves the disk as it
finds it. -/
theorem unpack_again {again : Workspace}
    (fresh : space.context = { settings := space.context.settings })
    (plain : space.context.settings.ledgerPath = []) (named : space.Named input)
    (apart : ¬space.disk.destination root <+: space.disk.destination input ∧
      ¬space.disk.destination input <+: space.disk.destination root)
    (ready : (space.prepare policy root).1 = true) (context : again.context = space.context)
    (platform : again.platform = space.platform)
    (disk : again.disk = (space.unpack policy root input).2.disk) :
    (space.Repeatable policy root input →
        (again.unpack policy root input).2.disk = (space.unpack policy root input).2.disk) ∧
      (policy = .clear → up ∉ names (Bytes.untilNul root) →
        (names (Bytes.untilNul root)).getLast? ≠ some here →
          space.Repeatable policy root input) := by
  have prepared := (prepared_of_prepare (Prod.ext ready rfl)).1
  have settings := congrArg Context.settings context
  constructor
  · intro repeatable
    by_cases idle : space.Idle input
    · have same := unpack_idle idle policy root
      rw [same] at disk ⊢
      rw [Idle, ← findPackages_congr disk settings] at idle
      exact (unpack_idle idle policy root).trans disk
    obtain ⟨found, finds, filled⟩ := found_of_busy idle
    obtain ⟨begun, began, begins, kept⟩ :=
      @prepare_of_prepared (space.log .info (modeText found)) _ _ _ prepared
    have final := (ran_ready finds filled began).2 plain
    have unmoved := (space.log .info (modeText found)).platform_prepare policy root
    rw [began] at unmoved
    by_cases idle' : again.Idle input
    · exact (unpack_idle idle' policy root).trans disk
    obtain ⟨found', finds', filled'⟩ := found_of_busy idle'
    have grown := begun.unpackQueue_grown policy root
      (space.context.settings.failurePolicy.proceeds found.inDirectory) found.queue.packages
    have outside := unpack_sameOutside_root plain policy root input
    rw [← final, ← disk, begins] at grown
    rw [← disk] at outside
    obtain ⟨mode, queue⟩ := found_again finds named apart prepared grown outside settings finds'
    have renewed : begun.context = { settings := begun.context.settings } := by
      rw [kept]
      exact fresh
    obtain ⟨start, prepared', same⟩ := unpackQueue_again renewed
      (by rw [begins]; exact prepared) repeatable.renewable
      (fun package member later grown outside =>
        fileAt?_of_package finds named apart member grown outside)
      (by rw [← (ran_ready finds filled began).1, unmoved]; exact repeatable.reachable)
    rw [← final, ← disk] at prepared'
    obtain ⟨begun', began', begins', kept'⟩ :=
      @prepare_of_prepared (again.log .info (modeText found')) _ _ _ prepared'
    have relies : begun'.platform = begun.platform := by
      have unmoved' := (again.log .info (modeText found')).platform_prepare policy root
      rw [began'] at unmoved'
      exact unmoved'.trans (platform.trans unmoved.symm)
    rw [(ran_ready finds' filled' began').2 (by rw [context]; exact plain), final, settings, mode,
      queue]
    exact same begun' (kept'.trans (context.trans kept.symm)) relies begins'
  · rintro rfl down last
    exact ⟨fun _ => renewable_of_down prepared down last, fun other => absurd rfl other⟩

/-- What a run over one package leaves to the next run. -/
def sampleAfter (policy : OverwritePolicy) (root : Bytes) : Workspace where
  disk := ((sampleSpace (sampleShipments.take 1)).unpack policy root (utf8 "in")).2.disk

theorem unpack_again_sample :
    ((sampleAfter .clear (utf8 "out")).unpack .clear (utf8 "out") (utf8 "in")).2.disk =
        (sampleAfter .clear (utf8 "out")).disk ∧
      ((sampleAfter .keep (utf8 "out")).unpack .keep (utf8 "out") (utf8 "in")).2.disk =
        (sampleAfter .keep (utf8 "out")).disk := by
  have named : (sampleSpace (sampleShipments.take 1)).Named (utf8 "in") := by
    apply named_of_list
    decide +kernel
  have apart : ¬(sampleSpace (sampleShipments.take 1)).disk.destination (utf8 "out") <+:
        (sampleSpace (sampleShipments.take 1)).disk.destination (utf8 "in") ∧
      ¬(sampleSpace (sampleShipments.take 1)).disk.destination (utf8 "in") <+:
        (sampleSpace (sampleShipments.take 1)).disk.destination (utf8 "out") := by
    decide +kernel
  constructor
  · obtain ⟨same, down⟩ := @unpack_again _ .clear (utf8 "out") (utf8 "in")
      (sampleAfter .clear (utf8 "out")) rfl rfl named apart (by decide +kernel) rfl rfl rfl
    exact same (down rfl (by decide +kernel) (by decide +kernel))
  · obtain ⟨same, _⟩ := @unpack_again _ .keep (utf8 "out") (utf8 "in")
      (sampleAfter .keep (utf8 "out")) rfl rfl named apart (by decide +kernel) rfl rfl rfl
    refine same ⟨fun impossible => ?_, fun _ => ⟨?_, fun _ => ?_⟩⟩
    · cases impossible
    · decide +kernel
    · decide +kernel

/-- A root that is reached by a step back out of a directory that is yet to be made is cleared by
the second run only: the old file that the first run left is gone. -/
theorem old_file_gone_again :
    ((sampleSpace (sampleShipments.take 1)).prepare .clear (utf8 "x/../out")).1 = true ∧
      (sampleAfter .clear (utf8 "x/../out")).disk.file? [utf8 "out", utf8 "old"] =
        some (utf8 "old") ∧
      ((sampleAfter .clear (utf8 "x/../out")).unpack .clear (utf8 "x/../out")
          (utf8 "in")).2.disk.file? [utf8 "out", utf8 "old"] = none := by
  decide +kernel

end Workspace

end Unbundle
