import Unbundle.Proofs.Run.Turns

/-!
The order of a queue. Main statement: paths with file names of their own have one queue, in whatever
order they come, so no run depends on the order in which the system lists a directory.
-/

namespace Unbundle

open Ascii Disk Unbundle.Path

/-- An order in which the system lists the entries of directories. -/
structure Listing where
  list : Disk → Place → List (Bytes × Entry)
  perm : ∀ disk place, (list disk place).Perm (disk.list place)

namespace Queue

variable {settings : Settings} {paths paths' : List Bytes} {queue other : Queue} {directory : Bytes}

/-- What a queue of paths is: each path once, the main packages apart from the others, and both kinds
strictly ascending by the bytes of their file names. -/
structure Ordered (settings : Settings) (paths : List Bytes) (queue : Queue) : Prop where
  complete : (queue.main ++ queue.subpackages).Perm paths
  main_iff : ∀ path, path ∈ queue.main ↔
    path ∈ paths ∧ lastSegment path ∈ settings.mainPackageNames
  mainAscending : queue.main.Pairwise fun a b => lastSegment a < lastSegment b
  othersAscending : queue.subpackages.Pairwise fun a b => lastSegment a < lastSegment b

theorem ascending_sortByName
    (distinct : paths.Pairwise fun a b => lastSegment a ≠ lastSegment b) :
    (sortByName paths).Pairwise fun a b => lastSegment a < lastSegment b := by
  have apart : (sortByName paths).Pairwise fun a b => lastSegment a ≠ lastSegment b :=
    (perm_sortByName paths).symm.pairwise distinct fun different => different.symm
  refine (pairwise_sortByName paths).imp₂ ?_ apart
  intro a b before different
  by_contra after
  exact different (List.le_antisymm before after)

private theorem ordered_ofPaths
    (distinct : paths.Pairwise fun a b => lastSegment a ≠ lastSegment b) :
    (ofPaths settings paths).Ordered settings paths where
  complete := ((perm_sortByName _).append (perm_sortByName _)).trans
    (List.filter_append_perm _ paths)
  main_iff path := by
    rw [ofPaths, (perm_sortByName _).mem_iff, List.mem_filter, Settings.isMainPackage,
      decide_eq_true_eq]
  mainAscending := ascending_sortByName (distinct.filter _)
  othersAscending := ascending_sortByName (distinct.filter _)

theorem eq_of_ascending (same : paths.Perm paths')
    (ascending : paths.Pairwise fun a b => lastSegment a < lastSegment b)
    (ascending' : paths'.Pairwise fun a b => lastSegment a < lastSegment b) : paths = paths' :=
  same.eq_of_pairwise (fun _ _ _ _ before after => absurd after (List.lt_asymm before))
    ascending ascending'

namespace Ordered

theorem perm (ordered : queue.Ordered settings paths) (same : paths.Perm paths') :
    queue.Ordered settings paths' where
  complete := ordered.complete.trans same
  main_iff path := by rw [ordered.main_iff, same.mem_iff]
  mainAscending := ordered.mainAscending
  othersAscending := ordered.othersAscending

private theorem unique (ordered : queue.Ordered settings paths)
    (ordered' : other.Ordered settings paths) : queue = other := by
  have nodup {list : List Bytes}
      (ascending : list.Pairwise fun a b => lastSegment a < lastSegment b) : list.Nodup := by
    refine ascending.imp ?_
    rintro path _ before rfl
    exact List.lt_irrefl _ before
  have main : queue.main = other.main := by
    refine eq_of_ascending ?_ ordered.mainAscending ordered'.mainAscending
    rw [List.perm_ext_iff_of_nodup (nodup ordered.mainAscending) (nodup ordered'.mainAscending)]
    intro path
    rw [ordered.main_iff, ordered'.main_iff]
  have others : queue.subpackages = other.subpackages := by
    refine eq_of_ascending ?_ ordered.othersAscending ordered'.othersAscending
    have whole := ordered.complete.trans ordered'.complete.symm
    rwa [main, List.perm_append_left_iff] at whole
  cases queue
  cases other
  cases main
  cases others
  rfl

end Ordered

private theorem ordered_iff (distinct : paths.Pairwise fun a b => lastSegment a ≠ lastSegment b) :
    queue.Ordered settings paths ↔ queue = ofPaths settings paths := by
  constructor
  · exact fun ordered => ordered.unique (ordered_ofPaths distinct)
  · rintro rfl
    exact ordered_ofPaths distinct

private theorem ofPaths_perm (same : paths'.Perm paths)
    (distinct : paths.Pairwise fun a b => lastSegment a ≠ lastSegment b) :
    ofPaths settings paths' = ofPaths settings paths := by
  have distinct' : paths'.Pairwise fun a b => lastSegment a ≠ lastSegment b :=
    same.symm.pairwise distinct fun different => different.symm
  exact ((ordered_ofPaths distinct').perm same).unique (ordered_ofPaths distinct)

/-- The names of the packages among the listed entries of a directory. -/
def listedNames (settings : Settings) (listed : List (Bytes × Entry)) : List Bytes :=
  listed.filterMap fun (name, entry) =>
    if entry ≠ .directory ∧ extension name = settings.containerExtension then some name else none

/-- The queue of a directory with its entries listed so. -/
def ofListing (settings : Settings) (directory : Bytes) (listed : List (Bytes × Entry)) : Queue :=
  ofPaths settings ((listedNames settings listed).map (below directory))

theorem ofListing_eq {disk : Disk} {place : Place} (listing : Listing)
    (plain : ∀ name, disk.file? (place ++ [name]) ≠ none → slash ∉ name) :
    ofListing settings directory (listing.list disk place) =
      ofPaths settings ((packageNames settings disk place).map (below directory)) :=
  ofPaths_perm (((listing.perm disk place).filterMap _).map _) (distinct_packages plain)

end Queue

namespace Workspace

variable {σ : Type} {space : Workspace} {input : Bytes}

/-- The packages of a run where the system lists directories in the given order. -/
def findListed (listing : Listing) (space : Workspace) (input : Bytes) : Except Bytes Found :=
  match space.disk.status input, space.disk.locate input with
  | .ok .directory, .ok place =>
    .ok ⟨true, .ofListing space.context.settings input (listing.list space.disk place)⟩
  | .ok (.file _), _ => .ok ⟨false, .ofPaths space.context.settings [input]⟩
  | .ok .directory, .error problem =>
    .error (Failure.disk .listDirectory problem input).message
  | .error _, _ => .error (utf8 "input does not exist: " ++ input)

/-- What a run does with the packages it has found, if it has found them. -/
def unpackFinding (sink : Sink σ) (policy : OverwritePolicy) (root input : Bytes) (memory : σ)
    (space : Workspace) : Except Bytes Found → RunReport × (σ × Workspace)
  | .error reason => (space.refuse reason).map id (memory, ·)
  | .ok found =>
    let begun := space.log .info (modeText found)
    if found.queue.packages = [] then
      (begun.refuse (utf8 "no " ++ space.context.settings.containerExtension ++
        utf8 " packages in " ++ input)).map id (memory, ·)
    else
      match begun.prepare policy root with
      | (false, begun) =>
        ({ abort := some (utf8 "cannot prepare output directory " ++ root) }, (memory, begun))
      | (true, begun) =>
        let proceeds := space.context.settings.failurePolicy.proceeds found.inDirectory
        let (reports, stop, (memory, left)) :=
          unpackQueueTo sink policy root proceeds found.queue.packages (memory, begun)
        (left.conclude root reports stop).map id (memory, ·)

private theorem unpackTo_finding (sink : Sink σ) (policy : OverwritePolicy) (root input : Bytes)
    (memory : σ) (space : Workspace) :
    unpackTo sink policy root input memory space =
      unpackFinding sink policy root input memory space (space.findPackages input) := rfl

/-- A run where the system lists directories in the given order. -/
def unpackListed (listing : Listing) (sink : Sink σ) (policy : OverwritePolicy) (root input : Bytes)
    (memory : σ) (space : Workspace) : RunReport × (σ × Workspace) :=
  unpackFinding sink policy root input memory space (space.findListed listing input)

private theorem findListed_eq (listing : Listing)
    (plain : ∀ name, space.disk.file? (space.disk.destination input ++ [name]) ≠ none →
      slash ∉ name) :
    space.findListed listing input = space.findPackages input := by
  rw [findListed, findPackages]
  cases state : space.disk.status input with
  | error problem => rfl
  | ok entry =>
    cases entry with
    | file content => rfl
    | directory =>
      obtain ⟨place, located, _⟩ := status_ok state
      obtain rfl := destination_of_locate located
      dsimp only
      rw [Queue.ofDirectory_eq located state, located]
      dsimp only
      rw [Queue.ofListing_eq listing plain]

/-- File names alone decide the order. Paths with names of their own have a single ordered queue,
which no other order of the paths changes; and two runs that differ in the order in which the system
lists the input end with the same report, disk and context, whoever is told of their progress. -/
theorem ordered_by_names {settings : Settings} {paths : List Bytes}
    (distinct : paths.Pairwise fun a b => lastSegment a ≠ lastSegment b)
    (first second : Listing) (sink : Sink σ) (policy : OverwritePolicy) (root input : Bytes)
    (memory : σ) (space : Workspace) :
    (∀ queue : Queue, queue.Ordered settings paths ↔ queue = .ofPaths settings paths) ∧
      (∀ paths', paths'.Perm paths → Queue.ofPaths settings paths' = .ofPaths settings paths) ∧
      ((∀ name, space.disk.file? (space.disk.destination input ++ [name]) ≠ none →
          slash ∉ name) →
        unpackListed first sink policy root input memory space =
            unpackListed second sink policy root input memory space ∧
          unpackListed first .showing policy root input () space =
            (space.unpack policy root input).map id ((), ·)) := by
  refine ⟨fun queue => Queue.ordered_iff distinct,
    fun paths' same => Queue.ofPaths_perm same distinct, fun plain => ⟨?_, ?_⟩⟩
  · rw [unpackListed, unpackListed, findListed_eq first plain, findListed_eq second plain]
  · rw [unpackListed, findListed_eq first plain, ← unpackTo_finding, unpackTo_showing]

/-- The entries of each directory from the last to the first. -/
def backwards : Listing where
  list disk place := (disk.list place).reverse
  perm _ _ := List.reverse_perm _

/-- Names that begin one another, an empty one, and one beyond ASCII. -/
def samplePaths : List Bytes :=
  [utf8 "in/é", utf8 "in/ab", utf8 "in/app.wxapkg", utf8 "in//a", utf8 "in/a/", utf8 "APP.wxapkg"]

theorem ordered_by_names_sample :
    Queue.ofPaths {} samplePaths =
        ⟨[utf8 "APP.wxapkg", utf8 "in/app.wxapkg"],
          [utf8 "in/a/", utf8 "in//a", utf8 "in/ab", utf8 "in/é"]⟩ ∧
      unpackListed backwards .showing .merge (utf8 "out") (utf8 "in") ()
          (sampleSpace (twoShipments (utf8 "hi"))) =
        ((sampleSpace (twoShipments (utf8 "hi"))).unpack .merge (utf8 "out") (utf8 "in")).map id
          ((), ·) := by
  have listed : ∀ entry ∈ (sampleSpace (twoShipments (utf8 "hi"))).disk.list
      ((sampleSpace (twoShipments (utf8 "hi"))).disk.destination (utf8 "in")),
      FileName entry.1 ∧ nul ∉ entry.1 := by
    decide +kernel
  have distinct : samplePaths.Pairwise fun a b => lastSegment a ≠ lastSegment b := by
    decide +kernel
  have main : [utf8 "APP.wxapkg", utf8 "in/app.wxapkg"].Perm (samplePaths.filter fun path =>
      lastSegment path ∈ ({} : Settings).mainPackageNames) := by
    decide +kernel
  obtain ⟨ordered, _, runs⟩ := @ordered_by_names Unit {} _ distinct backwards backwards .showing
    .merge (utf8 "out") (utf8 "in") () (sampleSpace (twoShipments (utf8 "hi")))
  have run := (runs fun name stands => (named_of_list listed name stands).1.plain).2
  refine ⟨((ordered _).mp ⟨?_, ?_, ?_, ?_⟩).symm, run⟩
  · decide +kernel
  · intro path
    rw [main.mem_iff, List.mem_filter, decide_eq_true_eq]
  · decide +kernel
  · decide +kernel

end Workspace

end Unbundle
