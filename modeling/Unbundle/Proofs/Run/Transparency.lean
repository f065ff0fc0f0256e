import Unbundle.Proofs.Run.Lockstep
import Unbundle.Proofs.Run.Queue

/-!
Sealed packages. Main statement: a run over packages of which some are sealed comes to the same as
one over the packages in clear, apart from the flag in their reports.
-/

namespace Unbundle

open Ascii Disk Unbundle.Path

/-- Settings under which a sealed container can be opened, and is told from one in clear. -/
structure Sealed.Settings.Telling (settings : Sealed.Settings) : Prop where
  usable : settings.Usable
  marked : settings.versionTag.head? ≠ some Container.firstMark

namespace Workspace

variable {space other : Workspace} {policy : OverwritePolicy} {root input : Bytes}
  {packages : List Package}

/-- A container and its sealed form for the app that a package belongs to. -/
def SealedAs (space : Workspace) (package : Package) (text bytes : Bytes) : Prop :=
  text.head? = some Container.firstMark ∧ Sealed.isAppId (space.appIdOf package.path) = true ∧
    ∃ salt, space.context.settings.sealing.Salts salt ∧
      Sealed.sealPackage space.context.settings.sealing (space.appIdOf package.path) salt text =
        .ok bytes

/-- Files of packages that are sealed on the second disk, with heads that the cipher can count. -/
def Resealed (space : Workspace) (packages : List Package) : Difference :=
  fun place content content' => ∃ package ∈ packages, space.disk.locate package.path = .ok place ∧
    ∃ text bytes, space.disk.file? place = some text ∧ content = some text ∧
      content' = some bytes ∧ space.SealedAs package text bytes ∧
      space.context.settings.sealing.Counts text

private theorem isSealed_of_firstMark {settings : Sealed.Settings} (telling : settings.Telling)
    {text : Bytes} (starts : text.head? = some Container.firstMark) :
    Sealed.isSealed settings text = false := by
  obtain ⟨rest, rfl⟩ := List.head?_eq_some_iff.mp starts
  rw [Sealed.isSealed]
  cases tag : settings.versionTag with
  | nil => rfl
  | cons b tag' =>
    have different : b ≠ Container.firstMark := by
      intro same
      apply telling.marked
      rw [tag, same]
      rfl
    simp [List.isPrefixOf, different]

theorem ofFile_sealed {package : Package} {text bytes : Bytes}
    (telling : space.context.settings.sealing.Telling)
    (counts : space.context.settings.sealing.Counts text)
    (closed : space.SealedAs package text bytes) :
    (Contents.ofFile space.platform.device space.context.settings (space.appIdOf package.path)
        package.path (some bytes)).map (Contents.flagged fun _ => false) =
      (Contents.ofFile space.platform.device space.context.settings (space.appIdOf package.path)
        package.path (some text)).map (Contents.flagged fun _ => false) := by
  obtain ⟨starts, valid, salt, salts, made⟩ := closed
  obtain ⟨known, opened⟩ := Sealed.openPackage_seal telling.usable salts counts valid starts made
    (Sealed.Keyring.sound_empty _)
  have plain := isSealed_of_firstMark telling starts
  rw [Contents.ofFile, Contents.ofFile, Device.read, Device.read]
  cases space.platform.device.fault? package.path with
  | some fault => rfl
  | none =>
  dsimp only
  rw [Contents.clear, Contents.clear, if_pos known, opened, plain]
  dsimp only [Except.map, Except.mapError]
  rw [if_neg (by decide)]
  dsimp only
  cases Container.parse space.context.settings.maxEntryCount.toNat text <;> rfl

/-- Whether a workspace is another one with packages of its input sealed. -/
structure Reseals (space other : Workspace) (packages : List Package) : Prop where
  context : other.context = space.context
  platform : other.platform = space.platform
  current : other.disk.current = space.disk.current
  entry : ∀ place, other.disk.find? place = space.disk.find? place ∨
    ∃ package ∈ packages, space.disk.locate package.path = .ok place ∧
      ∃ text bytes, space.disk.find? place = some (.file text) ∧
        other.disk.find? place = some (.file bytes) ∧ space.SealedAs package text bytes

/-- The cipher can count the head of every file that differs on the second disk. -/
def CountsChanged (space other : Workspace) : Prop :=
  ∀ place text, space.disk.find? place = some (.file text) →
    other.disk.find? place ≠ space.disk.find? place →
      space.context.settings.sealing.Counts text

theorem Reseals.alike (reseals : space.Reseals other packages)
    (counts : space.CountsChanged other) :
    Disk.Alike (space.Resealed packages) space.disk other.disk := by
  refine ⟨reseals.current, ?_, ?_⟩
  · intro place
    rcases reseals.entry place with same | ⟨_, _, _, text, bytes, found, found', _⟩
    · rw [same]
    · rw [found, found']
      simp
  · intro place
    by_cases same : other.disk.find? place = space.disk.find? place
    · exact .inl (file?_congr same)
    rcases reseals.entry place with
      same' | ⟨package, member, located, text, bytes, found, found', closed⟩
    · exact absurd same' same
    · right
      have file := file?_eq_some.mpr found
      exact ⟨package, member, located, text, bytes, file, file, file?_eq_some.mpr found', closed,
        counts place text found same⟩

theorem kept_resealed (space : Workspace) (packages : List Package) (place : Place) :
    Kept (space.Resealed packages) place := by
  rintro content content' ⟨_, _, _, text, bytes, _, rfl, rfl, _⟩
  simp

private theorem keeps_resealed (space : Workspace) (packages : List Package) (disk : Disk)
    (path : Bytes) :
    disk.Keeps (space.Resealed packages) path :=
  fun place _ => kept_resealed space packages place

theorem findPackages_resealed {found : Found} (finds : space.findPackages input = .ok found)
    (named : space.Named input) (reseals : space.Reseals other packages)
    (counts : space.CountsChanged other) :
    ∃ found', other.findPackages input = .ok found' ∧ found'.inDirectory = found.inDirectory ∧
      found'.queue.packages = found.queue.packages.filter fun _ => true := by
  have alike := reseals.alike counts
  have keeps := keeps_resealed space packages space.disk input
  have same := alike.status keeps
  rcases found_cases finds with ⟨content, source, rfl⟩ | ⟨source, queue, listed, rfl⟩
  · refine ⟨⟨false, .ofPaths space.context.settings [input]⟩, ?_, rfl, ?_⟩
    · rw [source] at same
      rw [findPackages, reseals.context]
      generalize other.disk.status input = state at same ⊢
      obtain ⟨⟩ | ⟨⟨⟩⟩ := same
      rfl
    · rw [List.filter_eq_self.mpr fun _ _ => rfl]
  · have source' := (alike.opens keeps (status_ok source)).status_eq
    obtain ⟨place, located, directory⟩ := status_ok source
    obtain rfl := destination_of_locate located
    have stands (name : Bytes) :
        other.disk.file? (space.disk.destination input ++ [name]) ≠ none ↔
          space.disk.file? (space.disk.destination input ++ [name]) ≠ none ∧ true = true := by
      rw [and_iff_left rfl]
      rcases alike.file (space.disk.destination input ++ [name]) with same | differs
      · rw [same]
      · exact not_congr (kept_resealed space packages _ _ _ differs).symm
    obtain ⟨_, queue', first, listed', queued⟩ :=
      @Queue.packages_filter space.context.settings space.disk other.disk input
        (space.disk.destination input) (fun _ => true) located source
        ((alike.locate_eq keeps).trans located) source'
        (fun name stands => (named name stands).1.plain) stands
    obtain rfl := Except.ok.inj (listed.symm.trans first)
    exact ⟨⟨true, queue'⟩, findPackages_ofDirectory source' (by rw [reseals.context, listed']), rfl,
      queued⟩

theorem path_eq_of_destination {found : Found} (finds : space.findPackages input = .ok found)
    (named : space.Named input) {package later : Package} (member : package ∈ found.queue.packages)
    (member' : later ∈ found.queue.packages)
    (stands : space.disk.file? (space.disk.destination package.path) ≠ none)
    (same : space.disk.destination later.path = space.disk.destination package.path) :
    later.path = package.path := by
  rcases origin_of_package finds named member stands with whole | ⟨name, led, entry⟩ <;>
    rcases origin_of_package finds named member' (same ▸ stands) with whole' | ⟨name', led', entry'⟩
  · rw [whole, whole']
  · rw [same, whole] at entry'
    exact absurd entry' (by simp)
  · rw [← same, whole'] at entry
    exact absurd entry (by simp)
  · rw [← same, entry'] at entry
    rw [led, led', List.singleton_inj.mp (List.append_cancel_left entry)]

theorem readsAlike_resealed {found : Found} (telling : space.context.settings.sealing.Telling)
    (finds : space.findPackages input = .ok found) (named : space.Named input)
    {package : Package} (member : package ∈ found.queue.packages) :
    space.ReadsAlike (space.Resealed found.queue.packages) (fun _ => false) package := by
  intro disk other alike current
  have files := alike.fileAt? (keeps_resealed space found.queue.packages disk package.path)
  have led : disk.destination package.path = space.disk.destination package.path := by
    rw [destination, destination, current]
  rw [led] at files
  generalize disk.fileAt? package.path = file, other.fileAt? package.path = file' at files ⊢
  cases files with
  | none => rfl
  | some same =>
    rcases same with
        rfl | ⟨first, member', located, text, bytes, stands, opened, closed, sealed, counts⟩
    · rfl
    · cases opened
      cases closed
      -- The package that was sealed at this place need not be the one that is read.
      have place := destination_of_locate located
      have path := path_eq_of_destination finds named member' member
        (by rw [place, stands]; exact Option.some_ne_none _) place.symm
      rw [SealedAs, ← path] at sealed
      exact ofFile_sealed telling counts sealed

/-- A run over packages of which some are sealed, with heads that the cipher can count, leaves the
same behind and reports the same as a run over the packages in clear, except that it tells which of
those that it unpacked were sealed. -/
theorem unpack_resealed {found : Found}
    (fresh : space.context = { settings := space.context.settings })
    (plain : space.context.settings.ledgerPath = [])
    (telling : space.context.settings.sealing.Telling)
    (finds : space.findPackages input = .ok found)
    (apart : ¬space.disk.destination root <+: space.disk.destination input ∧
      ¬space.disk.destination input <+: space.disk.destination root)
    (named : space.Named input) (reseals : space.Reseals other found.queue.packages)
    (counts : space.CountsChanged other) :
    (other.unpack policy root input).1.ok = (space.unpack policy root input).1.ok ∧
      (other.unpack policy root input).1.abort = (space.unpack policy root input).1.abort ∧
      (other.unpack policy root input).1.packages.map (PackageReport.flagged fun _ => false) =
        (space.unpack policy root input).1.packages.map (PackageReport.flagged fun _ => false) ∧
      SameResults (space.disk.destination root) (space.unpack policy root input).2
        (other.unpack policy root input).2 := by
  have alike : Alike (space.Resealed found.queue.packages) space other :=
    .of_disks fresh reseals.context reseals.platform (reseals.alike counts)
  obtain ⟨found', finds', mode, queued⟩ := findPackages_resealed finds named reseals counts
  have whole : found.queue.packages.filter (fun _ => true) = found.queue.packages :=
    List.filter_eq_self.mpr fun _ _ => rfl
  have runs : RunsAlike (space.Resealed found.queue.packages) (fun _ => false) (fun _ => true)
      (space.unpack policy root input) (other.unpack policy root input) :=
    unpack_alike alike plain finds finds' mode queued (by rw [queued, whole]; exact id)
      (keeps_resealed space _ _ root) (fun path _ => keeps_resealed space _ _ _)
      (fun package member _ => readsAlike_resealed telling finds named member)
      (fun _ _ lacking => by cases lacking) (fun _ _ lacking => by cases lacking)
  have reports : (other.unpack policy root input).1.packages.map
        (PackageReport.flagged fun _ => false) =
      (space.unpack policy root input).1.packages.map (PackageReport.flagged fun _ => false) := by
    rw [runs.packages, List.filter_eq_self.mpr fun _ _ => rfl]
  refine ⟨?_, runs.abort, reports, runs.space.sameResults ?_⟩
  · rw [ok_unpack plain, ok_unpack (by rw [reseals.context, plain]), runs.abort,
      ← PackageReport.all_flagged fun _ => false, reports, PackageReport.all_flagged]
  · rintro place content content' inside ⟨package, member, located, text, bytes, stands, _⟩
    obtain rfl := destination_of_locate located
    have there : space.disk.file? (space.disk.destination package.path) ≠ none := by
      rw [stands]
      exact Option.some_ne_none text
    rcases origin_of_package finds named member there with led | ⟨name, _, led⟩
    · rw [led] at inside
      exact apart.1 inside
    · rw [led] at inside
      exact apart_concat apart name inside

theorem ofFile_clear_ne {settings : Settings} (telling : settings.sealing.Telling) {text : Bytes}
    (starts : text.head? = some Container.firstMark) (appId path : Bytes) :
    Contents.ofFile {} settings appId path (some text) ≠ .error (.sealing .notContainer) := by
  rw [Contents.ofFile, Device.read]
  dsimp only
  rw [Contents.clear, isSealed_of_firstMark telling starts, if_neg (by decide)]
  dsimp only
  cases Container.parse settings.maxEntryCount.toNat text <;> simp

/-- A container of four gigabytes is lost in a head that is longer. -/
theorem lost_in_head :
    let settings : Settings := { sealing := { headLength := 0x100000010, iterations := 1 } }
    let appId := utf8 "wx0123456789abcdef"
    let text : Bytes := Container.firstMark :: List.replicate 0xffffffff 0
    settings.sealing.Telling ∧ settings.sealing.Salts (utf8 "NaCl-123") ∧
      ∃ bytes, Sealed.sealPackage settings.sealing appId (utf8 "NaCl-123") text = .ok bytes ∧
        ∀ path, Contents.ofFile {} settings appId path (some bytes) =
            .error (.sealing .notContainer) ∧
          Contents.ofFile {} settings appId path (some text) ≠ .error (.sealing .notContainer) := by
  intro settings appId text
  have telling : settings.sealing.Telling :=
    ⟨⟨by decide, by decide, by decide, by decide⟩, by decide +kernel⟩
  have salts : settings.sealing.Salts (utf8 "NaCl-123") :=
    ⟨by decide +kernel, by decide +kernel⟩
  have starts : text.head? = some Container.firstMark := rfl
  have length : text.length = 0x100000000 := by
    rw [List.length_cons, List.length_replicate]
  clear_value text
  have within : text.length ≤ settings.sealing.headLength.toNat - 1 := by
    rw [length]
    decide
  obtain ⟨bytes, made, known, opened⟩ := Sealed.openPackage_of_multiple telling.usable salts
    (by decide +kernel : Sealed.isAppId appId = true) within (by omega)
    (Sealed.Keyring.sound_empty _)
  refine ⟨telling, salts, bytes, made, fun path => ⟨?_, ofFile_clear_ne telling starts appId path⟩⟩
  rw [Contents.ofFile, Device.read]
  dsimp only
  rw [Contents.clear, if_pos known, opened]
  rfl

/-- A package in clear. -/
def sampleText : Bytes := Container.encode [⟨utf8 "/a.txt", utf8 "hi"⟩]

/-- A main package and a subpackage of an app, both in clear. -/
def clearSpace : Workspace where
  disk := (Output.put (Output.put Disk.empty (utf8 "in/app.wxapkg") sampleText).2
    (utf8 "in/a.wxapkg") sampleText).2
  context :=
    { settings :=
        { appId := utf8 "wx0123456789abcdef", sealing := { headLength := 16, iterations := 1 } } }

/-- The same app with other bytes for its main package. -/
def sealedSpace (bytes : Bytes) : Workspace :=
  { clearSpace with
    disk := clearSpace.disk.add [utf8 "in"] (utf8 "app.wxapkg") (.file bytes)
      (by decide +kernel) (by decide +kernel) }

theorem unpack_resealed_sample :
    ∃ bytes, Sealed.sealPackage { headLength := 16, iterations := 1 } (utf8 "wx0123456789abcdef")
        (utf8 "NaCl-123") sampleText = .ok bytes ∧
      ((sealedSpace bytes).unpack .clear (utf8 "out") (utf8 "in")).1.ok = true ∧
      SameResults [utf8 "out"] (clearSpace.unpack .clear (utf8 "out") (utf8 "in")).2
        ((sealedSpace bytes).unpack .clear (utf8 "out") (utf8 "in")).2 := by
  have usable : Sealed.Settings.Usable { headLength := 16, iterations := 1 } :=
    ⟨by decide, by decide, by decide, by decide⟩
  have salts : Sealed.Settings.Salts { headLength := 16, iterations := 1 } (utf8 "NaCl-123") :=
    ⟨by decide +kernel, by decide +kernel⟩
  have counts : Sealed.Settings.Counts { headLength := 16, iterations := 1 } sampleText := by
    rw [Sealed.Settings.Counts]
    decide +kernel
  obtain ⟨bytes, made⟩ :=
    Sealed.exists_sealPackage usable salts counts (utf8 "wx0123456789abcdef")
  have stands : clearSpace.disk.find? [utf8 "in", utf8 "app.wxapkg"] = some (.file sampleText) := by
    decide +kernel
  have closed (place : Place) : (sealedSpace bytes).disk.find? place =
      if place = [utf8 "in", utf8 "app.wxapkg"] then some (.file bytes)
      else clearSpace.disk.find? place := by
    rw [sealedSpace, find?_add]
    rfl
  have finds : clearSpace.findPackages (utf8 "in") =
      .ok ⟨true, ⟨[utf8 "in/app.wxapkg"], [utf8 "in/a.wxapkg"]⟩⟩ := by
    decide +kernel
  have reseals : clearSpace.Reseals (sealedSpace bytes)
      [⟨utf8 "in/app.wxapkg", .main⟩, ⟨utf8 "in/a.wxapkg", .subpackage⟩] := by
    refine ⟨rfl, rfl, rfl, ?_⟩
    intro place
    by_cases same : place = [utf8 "in", utf8 "app.wxapkg"]
    · right
      refine ⟨_, List.mem_cons_self, ?_, sampleText, bytes, ?_, ?_, ?_, ?_, utf8 "NaCl-123", salts,
        made⟩
      · rw [same]
        decide +kernel
      · rw [same, stands]
      · rw [closed, if_pos same]
      · decide +kernel
      · decide +kernel
    · left
      rw [closed, if_neg same]
  have changed : clearSpace.CountsChanged (sealedSpace bytes) := by
    intro place text found different
    by_cases same : place = [utf8 "in", utf8 "app.wxapkg"]
    · rw [same, stands] at found
      cases found
      exact counts
    · rw [closed, if_neg same] at different
      exact absurd rfl different
  have led : clearSpace.disk.destination (utf8 "out") = [utf8 "out"] := by decide +kernel
  obtain ⟨ok, _, _, same⟩ := @unpack_resealed clearSpace (sealedSpace bytes) .clear (utf8 "out")
    (utf8 "in") _ rfl rfl ⟨usable, by decide +kernel⟩ finds (by decide +kernel)
    (named_of_list (by decide +kernel)) reseals changed
  refine ⟨bytes, made, ?_, ?_⟩
  · rw [ok]
    decide +kernel
  · rw [← led]
    exact same

end Workspace

end Unbundle
