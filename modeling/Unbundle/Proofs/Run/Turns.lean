import Unbundle.CommandLine
import Unbundle.Proofs.Run.Reconstruction

/-!
The course of a run. The packages of the queue take their turns in order, each is shown once, and a
failure that is not passed over ends the run. Main statement: what a run reports, shows and leaves
behind is what these turns make of it, for every receiver of its progress.
-/

namespace Unbundle

/-- A receiver of progress. It has a memory of its own, and may change the workspace as well. -/
abbrev Sink (σ : Type) := Progress → σ × Workspace → σ × Workspace

/-- The receiver of a run that is given no other: it shows progress in the journal. -/
def Sink.showing : Sink Unit := fun progress (memory, space) =>
  (memory, space.showProgress progress)

/-- A package that a run has taken from its queue, and what came of it. -/
structure Turn where
  package : Package
  result : Except Failure PackageReport

namespace Turn

def report (turn : Turn) : PackageReport := Workspace.reportOf turn.package turn.result

/-- Why the run ends with this turn, if it does. -/
def stop? (proceeds : Bool) (turn : Turn) : Option Bytes :=
  Workspace.stopOf proceeds turn.package turn.result

/-- Whether a turn fails in a way that ends the run. A collision does under every policy, any other
failure if the policy is to abort, or leaves it to the mode and there is a single package. -/
def Stops (policy : FailurePolicy) (inDirectory : Bool) (turn : Turn) : Prop :=
  ∃ failure, turn.result = .error failure ∧
    (failure.isCollision = true ∨ policy = .abort ∨ policy = .auto ∧ inDirectory = false)

private theorem stop?_isSome_iff {turn : Turn} {policy : FailurePolicy} {inDirectory : Bool} :
    (turn.stop? (policy.proceeds inDirectory)).isSome = true ↔
      turn.Stops policy inDirectory := by
  rcases turn with ⟨package, failure | report⟩
  · by_cases collision : failure.isCollision = true
    · simp [stop?, Stops, Workspace.stopOf, stopReason?, collision]
    · cases policy <;> cases inDirectory <;>
        simp [stop?, Stops, Workspace.stopOf, stopReason?, collision, FailurePolicy.proceeds]
  · simp [stop?, Stops, Workspace.stopOf]

end Turn

namespace Workspace

variable {σ : Type} {sink : Sink σ} {policy : OverwritePolicy} {root : Bytes} {proceeds : Bool}
  {world shown : σ × Workspace} {turns : List Turn}

/-- Ends a run before all packages had their turn, if there is a reason to. -/
def haltFor (space : Workspace) : Option Bytes → Workspace
  | none => space
  | some reason => space.log .error (utf8 "Run aborted: " ++ reason)

/-- Unpacks a queue and tells a receiver of each package. -/
def unpackQueueTo (sink : Sink σ) (policy : OverwritePolicy) (root : Bytes) (proceeds : Bool) :
    List Package → σ × Workspace → List PackageReport × Option Bytes × (σ × Workspace)
  | [], world => ([], none, world)
  | package :: packages, world =>
    let (result, space) := world.2.unpackPackage policy root package
    let report := reportOf package result
    let world := sink (.ofReport report) (world.1, space)
    match stopOf proceeds package result with
    | some reason => ([report], some reason, (world.1, world.2.haltFor (some reason)))
    | none =>
      let (reports, stop, world) := unpackQueueTo sink policy root proceeds packages world
      (report :: reports, stop, world)

/-- A run that tells a receiver of each package. -/
def unpackTo (sink : Sink σ) (policy : OverwritePolicy) (root input : Bytes) (memory : σ)
    (space : Workspace) : RunReport × (σ × Workspace) :=
  match space.findPackages input with
  | .error reason => (space.refuse reason).map id (memory, ·)
  | .ok found =>
    let begun := space.log .info (modeText found)
    if found.queue.packages = [] then
      (begun.refuse (utf8 "no " ++ space.context.settings.containerExtension ++
        utf8 " packages in " ++ input)).map id (memory, ·)
    else
      match begun.prepare policy root with
      | (false, begun) =>
        ({ abort := some (utf8 "cannot prepare output directory " ++ root) }, (memory, begun))
      | (true, begun) =>
        let proceeds := space.context.settings.failurePolicy.proceeds found.inDirectory
        let (reports, stop, (memory, left)) :=
          unpackQueueTo sink policy root proceeds found.queue.packages (memory, begun)
        (left.conclude root reports stop).map id (memory, ·)

private theorem unpackQueueTo_showing (space : Workspace) (policy : OverwritePolicy) (root : Bytes)
    (proceeds : Bool) (packages : List Package) :
    unpackQueueTo .showing policy root proceeds packages ((), space) =
      let (reports, stop, left) := space.unpackQueue policy root proceeds packages
      (reports, stop, ((), left)) := by
  induction packages generalizing space with
  | nil => rfl
  | cons package packages ih =>
    rw [unpackQueue_cons, unpackQueueTo]
    rcases space.unpackPackage policy root package with ⟨result, after⟩
    dsimp only [Sink.showing]
    cases stopOf proceeds package result with
    | some reason => rfl
    | none => simp only [ih]

/-- A run is one that shows its progress in the journal. -/
theorem unpackTo_showing (space : Workspace) (policy : OverwritePolicy) (root input : Bytes) :
    unpackTo .showing policy root input () space =
      (space.unpack policy root input).map id ((), ·) := by
  rw [unpackTo, unpack]
  cases space.findPackages input with
  | error reason => rfl
  | ok found =>
    dsimp only
    by_cases empty : found.queue.packages = []
    · simp only [if_pos empty]
    · simp only [if_neg empty]
      rcases (space.log .info (modeText found)).prepare policy root with ⟨_ | _, begun⟩
      · rfl
      · simp only [unpackQueueTo_showing]

/-- The turns of packages, each in the workspace that the turns before it have left. The receiver is
told of each package after its turn. -/
inductive Turns (sink : Sink σ) (policy : OverwritePolicy) (root : Bytes) :
    σ × Workspace → List Turn → σ × Workspace → Prop
  | nil {world : σ × Workspace} : Turns sink policy root world [] world
  | cons {world shown : σ × Workspace} {after : Workspace} {package : Package}
      {result : Except Failure PackageReport} {turns : List Turn}
      (unpacked : world.2.unpackPackage policy root package = (result, after))
      (rest : Turns sink policy root
        (sink (.ofReport (reportOf package result)) (world.1, after)) turns shown) :
      Turns sink policy root world (⟨package, result⟩ :: turns) shown

theorem unpackPackage_reportOf (space : Workspace) (policy : OverwritePolicy) (root : Bytes)
    (package : Package) :
    let report := reportOf package (space.unpackPackage policy root package).1
    ⟨report.path, report.kind⟩ = package ∧
      (report.ok = true ↔
        ∃ report, (space.unpackPackage policy root package).1 = .ok report) := by
  have unpacks := space.unpacks policy root package
  cases result : (space.unpackPackage policy root package).1 with
  | error failure => simp [reportOf, PackageReport.failed]
  | ok report =>
    rw [result] at unpacks
    cases unpacks with
    | done => simp [reportOf, reportDone]

namespace Turns

theorem report (made : Turns sink policy root world turns shown) {turn : Turn}
    (member : turn ∈ turns) :
    ⟨turn.report.path, turn.report.kind⟩ = turn.package ∧
      (turn.report.ok = true ↔ ∃ report, turn.result = .ok report) := by
  induction made with
  | nil => cases member
  | @cons world shown after package result turns unpacked rest ih =>
    rcases List.mem_cons.mp member with rfl | later
    · have reported := world.2.unpackPackage_reportOf policy root package
      rw [unpacked] at reported
      exact reported
    · exact ih later

/-- A receiver that remembers what it is told has been told of every turn once, in order. -/
theorem told (made : Turns sink policy root world turns shown) {seen : σ → List Progress}
    (remembers : ∀ progress world, seen (sink progress world).1 = seen world.1 ++ [progress]) :
    seen shown.1 = seen world.1 ++ turns.map fun turn => .ofReport turn.report := by
  induction made with
  | nil => simp
  | cons unpacked rest ih => simp [ih, remembers, Turn.report]

/-- Turns of which only the last may end the run are what unpacking the queue comes to, if there is
nothing behind them or the last one does end it. -/
theorem unpackQueueTo_eq (made : Turns sink policy root world turns shown)
    (going : ∀ turn ∈ turns.dropLast, turn.stop? proceeds = none) (unread : List Package)
    (ends : unread = [] ∨ ∃ turn ∈ turns, (turn.stop? proceeds).isSome = true) :
    unpackQueueTo sink policy root proceeds (turns.map Turn.package ++ unread) world =
      (turns.map Turn.report, turns.findSome? (Turn.stop? proceeds),
        (shown.1, shown.2.haltFor (turns.findSome? (Turn.stop? proceeds)))) := by
  induction made with
  | nil =>
    obtain rfl : unread = [] := by simpa using ends
    rfl
  | @cons world shown after package result turns unpacked rest ih =>
    rw [List.map_cons, List.cons_append, unpackQueueTo, unpacked]
    dsimp only
    cases stop : stopOf proceeds package result with
    | some reason =>
      -- Only the last turn ends a run, so there is no other behind this one.
      cases turns with
      | nil =>
        cases rest
        simp [Turn.report, Turn.stop?, stop]
      | cons next turns =>
        have none := going ⟨package, result⟩ (by simp)
        simp [Turn.stop?, stop] at none
    | none =>
      have passed : Turn.stop? proceeds ⟨package, result⟩ = none := stop
      have later := ih
        (fun turn member => going turn (by cases turns <;> simp_all))
        (by simpa [passed] using ends)
      simp [later, passed, Turn.report]

end Turns

theorem exists_turns (sink : Sink σ) (policy : OverwritePolicy) (root : Bytes) (proceeds : Bool)
    (packages : List Package) (world : σ × Workspace) :
    ∃ turns shown unread, Turns sink policy root world turns shown ∧
      packages = turns.map Turn.package ++ unread ∧
      (∀ turn ∈ turns.dropLast, turn.stop? proceeds = none) ∧
      (unread = [] ∨ ∃ turn ∈ turns, (turn.stop? proceeds).isSome = true) := by
  induction packages generalizing world with
  | nil => exact ⟨[], world, [], .nil, rfl, by simp, .inl rfl⟩
  | cons package packages ih =>
    rcases unpacked : world.2.unpackPackage policy root package with ⟨result, after⟩
    by_cases stops : (Turn.stop? proceeds ⟨package, result⟩).isSome = true
    · exact ⟨[⟨package, result⟩], _, packages, .cons unpacked .nil, rfl, by simp,
        .inr ⟨_, List.mem_singleton_self _, stops⟩⟩
    · obtain ⟨turns, shown, unread, made, rfl, going, ends⟩ :=
        ih (sink (.ofReport (reportOf package result)) (world.1, after))
      refine ⟨⟨package, result⟩ :: turns, shown, unread, .cons unpacked made, rfl, ?_,
        ends.imp_right fun ⟨turn, member, stop⟩ => ⟨turn, List.mem_cons_of_mem _ member, stop⟩⟩
      intro turn member
      cases turns with
      | nil => simp at member
      | cons next turns =>
        rcases List.mem_cons.mp member with rfl | later
        · simpa using stops
        · exact going turn later

private theorem conclude_ok (space : Workspace) (root : Bytes) (reports : List PackageReport)
    (abort : Option Bytes) :
    (space.conclude root reports abort).1.packages = reports ∧
      (space.conclude root reports abort).1.abort = abort ∧
      ((space.conclude root reports abort).1.ok = true ↔
        abort = none ∧ (∀ report ∈ reports, report.ok = true) ∧
          (space.context.settings.ledgerPath = [] ∨
            (space.storeRun space.context.settings.ledgerPath reports).1 = true)) := by
  have recorded : (space.recordRun reports).1 = true ↔
      space.context.settings.ledgerPath = [] ∨
        (space.storeRun space.context.settings.ledgerPath reports).1 = true := by
    rw [recordRun]
    by_cases plain : space.context.settings.ledgerPath = []
    · simp [plain]
    · rcases space.storeRun space.context.settings.ledgerPath reports with ⟨_ | _, after⟩ <;>
        simp [plain]
  rw [conclude, ← recorded]
  rcases space.recordRun reports with ⟨ok, after⟩
  dsimp only
  split <;> simp [and_assoc]

/-- What there is to know of a run whose packages are found and whose output is prepared. -/
structure Course (sink : Sink σ) (policy : OverwritePolicy) (root : Bytes) (settings : Settings)
    (found : Found) (begun : σ × Workspace) (turns : List Turn) (shown : σ × Workspace)
    (run : RunReport × (σ × Workspace)) : Prop where
  /-- The packages of a first part of the queue take their turns. -/
  made : Turns sink policy root begun turns shown
  taken : turns.map Turn.package <+: found.queue.packages
  /-- There is one report for each turn. It names the package, and tells whether it is unpacked. -/
  reports : run.1.packages = turns.map Turn.report
  named : ∀ turn ∈ turns, ⟨turn.report.path, turn.report.kind⟩ = turn.package
  unpacked : ∀ turn ∈ turns, turn.report.ok = true ↔ ∃ report, turn.result = .ok report
  /-- The receiver is told of each report once, in order. -/
  told : ∀ seen : σ → List Progress,
    (∀ progress world, seen (sink progress world).1 = seen world.1 ++ [progress]) →
      seen run.2.1 = seen begun.1 ++ run.1.packages.map fun report =>
        ⟨⟨report.path, report.kind⟩, report.ok, report.entries, report.modules, report.error⟩
  /-- Behind the turns there is only the end of the run, whichever packages the queue has left. -/
  left : run.2 = (shown.1,
    ((shown.2.haltFor run.1.abort).conclude root run.1.packages run.1.abort).2)
  unread : (∃ turn ∈ turns, turn.Stops settings.failurePolicy found.inDirectory) →
    ∀ others, let proceeds := settings.failurePolicy.proceeds found.inDirectory
      unpackQueueTo sink policy root proceeds (turns.map Turn.package ++ others) begun =
        unpackQueueTo sink policy root proceeds found.queue.packages begun
  /-- A turn that ends the run is the last one, and a queue is left early for no other reason. -/
  last : ∀ index turn, turns[index]? = some turn →
    turn.Stops settings.failurePolicy found.inDirectory → index + 1 = turns.length
  whole : turns.map Turn.package = found.queue.packages ↔
    ∀ index turn, turns[index]? = some turn → index + 1 < found.queue.packages.length →
      ¬ turn.Stops settings.failurePolicy found.inDirectory
  aborted : run.1.abort.isSome = true ↔
    ∃ turn ∈ turns, turn.Stops settings.failurePolicy found.inDirectory
  ok : run.1.ok = true ↔ run.1.abort = none ∧ (∀ report ∈ run.1.packages, report.ok = true) ∧
    let last := shown.2.haltFor run.1.abort
    (last.context.settings.ledgerPath = [] ∨
      (last.storeRun last.context.settings.ledgerPath run.1.packages).1 = true)

theorem Course.all_unpacked {settings : Settings} {found : Found} {begun : σ × Workspace}
    {run : RunReport × (σ × Workspace)}
    (course : Course sink policy root settings found begun turns shown run)
    (well : run.1.ok = true) :
    turns.map Turn.package = found.queue.packages ∧
      ∀ turn ∈ turns, ∃ report, turn.result = .ok report := by
  obtain ⟨ended, unpacked, _⟩ := course.ok.mp well
  have passed : ¬ ∃ turn ∈ turns, turn.Stops settings.failurePolicy found.inDirectory := by
    rw [← course.aborted, ended]
    simp
  constructor
  · exact course.whole.mpr fun index turn taken _ stops =>
      passed ⟨turn, List.mem_of_getElem? taken, stops⟩
  · intro turn member
    refine (course.unpacked turn member).mp (unpacked _ ?_)
    rw [course.reports]
    exact List.mem_map_of_mem member

/-- A turn that ends the run is the last one if no turn before the last does. -/
theorem last_of_going {stops : Turn → Prop} (going : ∀ turn ∈ turns.dropLast, ¬ stops turn)
    {index : Nat} {turn : Turn} (taken : turns[index]? = some turn) (ends : stops turn) :
    index + 1 = turns.length := by
  obtain ⟨inside, rfl⟩ := List.getElem?_eq_some_iff.mp taken
  by_contra early
  refine going turns[index] ?_ ends
  rw [List.mem_iff_getElem]
  exact ⟨index, by rw [List.length_dropLast]; omega, List.getElem_dropLast _⟩

theorem whole_iff {stops : Turn → Prop} {packages unread : List Package}
    (queued : packages = turns.map Turn.package ++ unread)
    (going : ∀ turn ∈ turns.dropLast, ¬ stops turn)
    (ends : unread = [] ∨ ∃ turn ∈ turns, stops turn) :
    turns.map Turn.package = packages ↔
      ∀ index turn, turns[index]? = some turn → index + 1 < packages.length → ¬ stops turn := by
  constructor
  · intro whole index turn taken early stop
    have last := last_of_going going taken stop
    rw [← whole, List.length_map] at early
    omega
  · intro early
    rcases ends with rfl | ⟨turn, member, stop⟩
    · simpa using queued.symm
    · obtain ⟨index, inside, rfl⟩ := List.mem_iff_getElem.mp member
      have last := last_of_going going (List.getElem?_eq_getElem inside) stop
      have behind : ¬ index + 1 < packages.length := fun behind =>
        early index _ (List.getElem?_eq_getElem inside) behind stop
      rw [queued, List.length_append, List.length_map] at behind
      have none : unread = [] := List.length_eq_zero_iff.mp (by omega)
      simpa [none] using queued.symm

private theorem unpackTo_eq (sink : Sink σ) {input : Bytes} (memory : σ) {space begun : Workspace}
    {found : Found} (finding : space.findPackages input = .ok found)
    (stocked : found.queue.packages ≠ [])
    (prepared : (space.log .info (modeText found)).prepare policy root = (true, begun)) :
    unpackTo sink policy root input memory space =
      let (reports, stop, left) := unpackQueueTo sink policy root
        (space.context.settings.failurePolicy.proceeds found.inDirectory) found.queue.packages
        (memory, begun)
      (left.2.conclude root reports stop).map id (left.1, ·) := by
  simp only [unpackTo, finding, if_neg stocked, prepared]

private theorem exists_course (sink : Sink σ) {input : Bytes} (memory : σ) {space begun : Workspace}
    {found : Found} (finding : space.findPackages input = .ok found)
    (stocked : found.queue.packages ≠ [])
    (prepared : (space.log .info (modeText found)).prepare policy root = (true, begun)) :
    ∃ turns shown, Course sink policy root space.context.settings found (memory, begun) turns
      shown (unpackTo sink policy root input memory space) := by
  obtain ⟨turns, shown, unread, made, queued, going, ends⟩ := exists_turns sink policy root
    (space.context.settings.failurePolicy.proceeds found.inDirectory) found.queue.packages
    (memory, begun)
  have unpacked := made.unpackQueueTo_eq going unread ends
  have run := unpackTo_eq sink memory finding stocked prepared
  rw [queued, unpacked] at run
  have passed : ∀ turn ∈ turns.dropLast,
      ¬ turn.Stops space.context.settings.failurePolicy found.inDirectory := by
    intro turn member stops
    rw [← Turn.stop?_isSome_iff, going turn member] at stops
    cases stops
  have stopping : unread = [] ∨ ∃ turn ∈ turns,
      turn.Stops space.context.settings.failurePolicy found.inDirectory :=
    ends.imp_right fun ⟨turn, member, stop⟩ => ⟨turn, member, Turn.stop?_isSome_iff.mp stop⟩
  obtain ⟨reports, abort, ok⟩ := conclude_ok
    (shown.2.haltFor (turns.findSome? (Turn.stop? _))) root (turns.map Turn.report)
    (turns.findSome? (Turn.stop? (space.context.settings.failurePolicy.proceeds found.inDirectory)))
  refine ⟨turns, shown, ?_⟩
  rw [run]
  constructor
  case made => exact made
  case taken => exact ⟨unread, queued.symm⟩
  case reports => exact reports
  case named => exact fun turn member => (made.report member).1
  case unpacked => exact fun turn member => (made.report member).2
  case told =>
    intro seen remembers
    have told := made.told remembers
    simpa [reports, Progress.ofReport, Function.comp_def] using told
  case left => simp [reports, abort]
  case unread =>
    rintro ⟨turn, member, stops⟩ others
    have same := made.unpackQueueTo_eq going others
      (.inr ⟨turn, member, Turn.stop?_isSome_iff.mpr stops⟩)
    rw [queued]
    exact same.trans unpacked.symm
  case last => exact fun index turn taken stops => last_of_going passed taken stops
  case whole => exact whole_iff queued passed stopping
  case aborted => simp [abort, List.findSome?_isSome_iff, Turn.stop?_isSome_iff]
  case ok => simpa [reports, abort] using ok

end Workspace

namespace CommandLine

/-- The workspace in which a run starts. -/
def Options.started (options : Options) (settings : Settings) (root : Bytes) (disk : Disk)
    (platform : Platform) : Workspace :=
  let space : Workspace :=
    { disk, context := { settings }, journal := { quiet := options.quiet }, platform }
  (space.log .info (utf8 "Input:  " ++ options.input)).log .info
    (utf8 "Output: " ++ root ++ utf8 " (" ++ utf8 options.policy.name ++ utf8 ")")

theorem run_exitCode {program : Bytes} {arguments : List Bytes} {disk : Disk}
    {platform : Platform} {options : Options} {settings : Settings} {root : Bytes}
    (given : readArguments {} arguments = .ok options)
    (configured : options.settings disk platform.json = .ok settings)
    (placed : options.root disk = .ok root) :
    (run program arguments disk platform).1 =
      .ok (if ((options.started settings root disk platform).unpack options.policy root
        options.input).1.ok then 0 else 1) := by
  simp only [run, given, configured, placed]
  rfl

end CommandLine

namespace Workspace

variable {σ : Type}

/-- A run that finds packages and prepares its output takes them in their turns, shows and reports
each, and ends as the failures among them tell. A program exits with zero only if its run unpacked
every package of the queue. -/
theorem unpackTo_course (sink : Sink σ) (policy : OverwritePolicy) (root input : Bytes)
    (memory : σ) {space begun : Workspace} {found : Found}
    (finding : space.findPackages input = .ok found) (stocked : found.queue.packages ≠ [])
    (prepared : (space.log .info (modeText found)).prepare policy root = (true, begun)) :
    (∃ turns shown, Course sink policy root space.context.settings found (memory, begun) turns
        shown (unpackTo sink policy root input memory space)) ∧
      unpackTo .showing policy root input () space =
        (space.unpack policy root input).map id ((), ·) ∧
      ∀ program arguments disk platform options settings,
        CommandLine.readArguments {} arguments = .ok options →
        options.settings disk platform.json = .ok settings → options.root disk = .ok root →
        options.started settings root disk platform = space → options.input = input →
        options.policy = policy → (CommandLine.run program arguments disk platform).1 = .ok 0 →
          ∃ turns shown, Turns .showing policy root ((), begun) turns shown ∧
            turns.map Turn.package = found.queue.packages ∧
            ∀ turn ∈ turns, ∃ report, turn.result = .ok report := by
  refine ⟨exists_course sink memory finding stocked prepared, unpackTo_showing .., ?_⟩
  rintro program arguments disk platform options settings given configured placed rfl rfl rfl exits
  rw [CommandLine.run_exitCode given configured placed] at exits
  obtain ⟨turns, shown, course⟩ := exists_course .showing () finding stocked prepared
  rw [unpackTo_showing] at course
  have well : ((options.started settings root disk platform).unpack options.policy root
      options.input).1.ok = true := by
    by_contra ill
    simp [ill] at exits
  exact ⟨turns, shown, course.made, course.all_unpacked well⟩

/-- A main package and a subpackage with a file of the same name. -/
def twoShipments (content : Bytes) : List Shipment :=
  [⟨utf8 "app.wxapkg", [⟨utf8 "/a.txt", utf8 "hi"⟩]⟩,
   ⟨utf8 "b.wxapkg", [⟨utf8 "a.txt", content⟩]⟩]

/-- What a program does that is to unpack the two packages. -/
def runTwo (content : Bytes) : Except Failure UInt32 × Workspace :=
  CommandLine.run (utf8 "unbundle") [utf8 "in", utf8 "-o", utf8 "out"]
    (sampleSpace (twoShipments content)).disk

theorem unpackTo_course_sample :
    (runTwo (utf8 "hi")).1 = .ok 0 ∧
      ∃ begun turns shown, Turns .showing .merge (utf8 "out") ((), begun) turns shown ∧
        turns.map Turn.package =
          [⟨utf8 "in/app.wxapkg", .main⟩, ⟨utf8 "in/b.wxapkg", .subpackage⟩] ∧
        ∀ turn ∈ turns, ∃ report, turn.result = .ok report := by
  let disk := (sampleSpace (twoShipments (utf8 "hi"))).disk
  let options : CommandLine.Options := { input := utf8 "in", output := utf8 "out" }
  let space := options.started {} (utf8 "out") disk {}
  let found : Found := ⟨true, [utf8 "in/app.wxapkg"], [utf8 "in/b.wxapkg"]⟩
  have exits : (runTwo (utf8 "hi")).1 = .ok 0 := by decide +kernel
  have finding : space.findPackages (utf8 "in") = .ok found := by decide +kernel
  have prepared : ((space.log .info (modeText found)).prepare .merge (utf8 "out")).1 = true := by
    decide +kernel
  obtain ⟨_, _, commandLine⟩ := unpackTo_course .showing .merge (utf8 "out") (utf8 "in") ()
    finding (by decide) (Prod.ext prepared rfl)
  have unpacked := commandLine (utf8 "unbundle") [utf8 "in", utf8 "-o", utf8 "out"] disk {} options {}
    (by decide +kernel) (by decide +kernel) (by decide +kernel) rfl rfl rfl exits
  exact ⟨exits, _, unpacked⟩

/-- With other content in the subpackage the run ends in a collision. -/
example : (runTwo (utf8 "ho")).1 = .ok 1 := by decide +kernel

end Workspace

end Unbundle
