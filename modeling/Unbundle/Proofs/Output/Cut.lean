import Unbundle.Proofs.Output.Again

/-!
Paths that a NUL cuts off. Main statement: a file is written below an open root just where the
segments in front of the NUL lead, and these are proper names.
-/

namespace Unbundle

open Ascii Disk Unbundle.Path

namespace Path

private theorem lastSegment_ne_nil {front : Bytes} {b : UInt8} (different : b ≠ slash) :
    lastSegment (front ++ [b]) ≠ [] := by
  rw [lastSegment_append_plain front (by simpa using different.symm)]
  exact List.append_ne_nil_of_right_ne_nil _ (List.cons_ne_nil b [])

/-- What is left of a canonical path at its first NUL is canonical if the last segment is proper. -/
theorem Canonical.untilNul {path : Bytes} (canonical : Canonical path)
    (nonempty : lastSegment (Bytes.untilNul path) ≠ [])
    (proper : lastSegment (Bytes.untilNul path) ≠ here ∧ lastSegment (Bytes.untilNul path) ≠ up) :
    Canonical (Bytes.untilNul path) := by
  refine ⟨fun member => canonical.1 ((Bytes.untilNul_prefix path).subset member), ?_⟩
  intro segment member
  rw [← dropLast_append_lastSegment, List.mem_append, List.mem_singleton] at member
  rcases member with inner | rfl
  · exact canonical.2 segment (mem_segments_of_mem_dropLast (Bytes.untilNul_prefix path) inner)
  · refine ⟨?_, proper.2⟩
    rw [isIdle, Bool.or_eq_false_iff, decide_eq_false_iff_not, decide_eq_false_iff_not]
    exact ⟨nonempty, proper.1⟩

end Path

namespace Disk

variable {disk after : Disk} {root path content : Bytes}

/-- Below a directory, a path that is cut right behind a slash can only mean a directory. -/
theorem wantsDirectory_below_cut (uncut : nul ∉ root) (canonical : Canonical path)
    (nonempty : Bytes.untilNul path ≠ []) (ends : lastSegment (Bytes.untilNul path) = []) :
    wantsDirectory (Bytes.untilNul (Path.below root path)) = true := by
  obtain ⟨ending, whole, _, slashes, _⟩ := below_eq root canonical.head?_ne_slash
  have stem : nul ∉ root ++ ending := by
    rw [List.mem_append, not_or]
    exact ⟨uncut, fun member => absurd (slashes nul member) (by decide)⟩
  obtain ⟨front, b, cut⟩ := (List.eq_nil_or_concat' (Bytes.untilNul path)).resolve_left nonempty
  have same : b = slash := by
    by_contra different
    rw [cut] at ends
    exact lastSegment_ne_nil different ends
  rw [whole, Bytes.untilNul_plain stem, cut, same, wantsDirectory, ← List.append_assoc,
    List.getLast?_concat]
  exact decide_eq_true rfl

/-- A path below a directory that a file is written under does not end at a NUL right behind a
slash. -/
theorem lastSegment_of_write {place : Place}
    (stands : disk.find? (disk.destination root) = some .directory) (uncut : nul ∉ root)
    (canonical : Canonical path)
    (followed : disk.follow (disk.destination root) (names (Bytes.untilNul path)) = .ok place)
    (free : disk.find? place ≠ some .directory)
    (written : disk.write (Path.below root path) content = .ok after) :
    lastSegment (Bytes.untilNul path) ≠ [] := by
  intro ends
  by_cases none : Bytes.untilNul path = []
  · rw [none] at followed
    cases followed
    exact free stands
  · have wants := wantsDirectory_below_cut uncut canonical none ends
    rw [wantsDirectory_of_write written] at wants
    cases wants

/-- A file written below a directory lies where the part of its path in front of the first NUL
leads, and this part is canonical. -/
theorem write_cut (stands : disk.find? (disk.destination root) = some .directory)
    (canonical : Canonical path) (written : disk.write (Path.below root path) content = .ok after) :
    nul ∉ root ∧ Canonical (Bytes.untilNul path) ∧
      disk.locate (Path.below root path) =
        .ok (disk.destination root ++ segments (Bytes.untilNul path)) ∧
      disk.place? (disk.destination root ++ segments (Bytes.untilNul path)) (.file content) =
        .ok after := by
  obtain ⟨place, located, placed⟩ := write_ok written
  obtain ⟨free, _⟩ := place?_ok placed
  have uncut : nul ∉ root := by
    intro cut
    have led := destination_of_locate located
    rw [destination, untilNul_below cut canonical.head?_ne_slash] at led
    exact free (led ▸ stands)
  have followed := follow_below_plain uncut canonical.head?_ne_slash located
  have nonempty := lastSegment_of_write stands uncut canonical followed free written
  have parts := dropLast_append_lastSegment (Bytes.untilNul path)
  have components : names (Bytes.untilNul path) = segments (Bytes.untilNul path) := by
    rw [names, List.filter_eq_self, ← parts]
    intro name member
    rw [List.mem_append, List.mem_singleton] at member
    rcases member with inner | rfl
    · have segment := mem_segments_of_mem_dropLast (Bytes.untilNul_prefix path) inner
      simpa using (canonical.segment_ne segment).1
    · simpa using nonempty
  rw [components] at followed
  have last := proper_of_follow_concat (parts.symm ▸ followed) free
  have whole := canonical.untilNul nonempty last
  have arrived : disk.destination root ++ segments (Bytes.untilNul path) = place := by
    rw [← reach_of_follow followed, reach_proper]
    exact fun name member => (whole.segment_ne member).2
  rw [arrived]
  exact ⟨uncut, whole, located, placed⟩

/-- Where a disk has an entry, proper names lead there if they do so on any other disk. -/
theorem follow_proper {other : Disk} {place target : Place} {names : List Bytes} {entry : Entry}
    (proper : ∀ name ∈ names, name ≠ here ∧ name ≠ up)
    (followed : other.follow place names = .ok target) (found : disk.find? target = some entry) :
    disk.follow place names = .ok target := by
  induction names generalizing place with
  | nil => exact followed
  | cons name names ih =>
    obtain ⟨first, others⟩ := List.forall_mem_cons.mp proper
    obtain ⟨_, short, rest⟩ := follow_cons_ok followed
    have arrived : place ++ name :: names = target := by
      rw [← reach_of_follow followed, reach_proper place proper]
    rw [← arrived] at found
    rw [follow_cons (find?_of_append found (List.cons_ne_nil name names)) short]
    exact ih others rest

/-- A path below an open root leads to each entry that it leads to on any other disk. -/
theorem locate_below {other : Disk} {place : Place} {entry : Entry} (opens : disk.Opens root)
    (uncut : nul ∉ root) (relative : path.head? ≠ some slash)
    (proper : ∀ name ∈ names (Bytes.untilNul path), name ≠ here ∧ name ≠ up)
    (current : other.current = disk.current)
    (located : other.locate (Path.below root path) = .ok place)
    (found : disk.find? place = some entry) :
    disk.locate (Path.below root path) = .ok place := by
  obtain ⟨home, there, _⟩ := opens
  obtain ⟨seen, absolute⟩ := seen_below uncut relative
  have first := follow_of_locate there
  rw [Bytes.untilNul_eq_self uncut] at first
  have followed := follow_below_plain uncut relative located
  rw [destination, current, ← destination, destination_of_locate there] at followed
  apply locate_of_follow located
  rw [seen, absolute, follow_append first]
  exact follow_proper proper followed found

end Disk

namespace Output

variable {disk after : Disk} {policy : OverwritePolicy} {root path content : Bytes}

/-- What a file leaves that has been put below a directory. -/
theorem put_cut (stands : disk.Starts root → disk.find? (disk.destination root) = some .directory)
    (canonical : Canonical path) (done : put disk (below root path) content = (.ok (), after)) :
    nul ∉ root ∧ Canonical (Bytes.untilNul path) ∧
      after.fileAt? (below root path) = some content ∧
      after.destination (below root path) =
        disk.destination root ++ segments (Bytes.untilNul path) ∧
      ∀ place, after.file? place =
        if place = disk.destination root ++ segments (Bytes.untilNul path) then some content
        else disk.file? place := by
  have starts := (starts_below canonical.head?_ne_slash).mp (starts_of_put done)
  obtain ⟨middle, made, written⟩ := put_ok_cases done
  have parent := makeParent_sameOutside disk (below root path)
  have grown := makeParent_grown disk (below root path)
  rw [made] at parent grown
  have stood : middle.find? (middle.destination root) = some .directory := by
    rw [parent.destination_eq]
    exact grown.directory _ (stands starts)
  obtain ⟨uncut, whole, located, placed⟩ := write_cut stood canonical written
  rw [parent.destination_eq root] at located placed
  exact ⟨uncut, whole, put_at made written located placed⟩

/-- Where a path names nothing, it is no file that is put in the place of another. -/
theorem free_of_put (opens : disk.Opens root) (canonical : Canonical path)
    (absent : disk.presence (below root path) = .ok false)
    (done : put disk (below root path) content = (.ok (), after)) :
    disk.file? (disk.destination root ++ segments (Bytes.untilNul path)) = none := by
  by_contra stands
  obtain ⟨old, found⟩ := file?_ne_none.mp stands
  obtain ⟨middle, made, written⟩ := put_ok_cases done
  have parent := makeParent_sameOutside disk (below root path)
  have grown := makeParent_grown disk (below root path)
  rw [made] at parent grown
  obtain ⟨uncut, whole, located, _⟩ :=
    write_cut (grown.opens opens).destination_eq canonical written
  rw [parent.destination_eq root] at located
  have there := locate_below opens uncut canonical.head?_ne_slash
    (fun name member => (whole.segment_ne (names_canonical whole ▸ member)).2)
    parent.1 located found
  rw [presence, status, there] at absent
  dsimp only at absent
  rw [found] at absent
  dsimp only at absent
  rw [wantsDirectory_of_write written] at absent
  cases absent

end Output

/-- Where the file of an offer comes to lie: the segments of its path up to the first NUL. -/
def Offer.seen (home : Place) (offer : Offer) : Place :=
  home ++ segments (Bytes.untilNul offer.path)

theorem Offer.seen_eq_iff {home : Place} {offer other : Offer} :
    offer.seen home = other.seen home ↔
      Bytes.untilNul offer.path = Bytes.untilNul other.path := by
  constructor
  · intro same
    rw [← join_segments (Bytes.untilNul offer.path), List.append_cancel_left same, join_segments]
  · intro same
    rw [seen, seen, same]

namespace Output

variable {policy : OverwritePolicy} {root : Bytes}

/-- The offer itself, if a file is written for it. -/
def wrote? (output : Output) (policy : OverwritePolicy) (root : Bytes) (offer : Offer) :
    Option Offer :=
  match (output.offer policy root offer).1 with
  | .ok .written => some offer
  | _ => none

/-- The offers that a file is written for. -/
def written (output : Output) (policy : OverwritePolicy) (root : Bytes) : List Offer → List Offer
  | [] => []
  | offer :: offers =>
    (output.wrote? policy root offer).toList ++
      (output.offer policy root offer).2.written policy root offers

theorem mem_of_written (output : Output) {offers : List Offer} {offer : Offer}
    (member : offer ∈ output.written policy root offers) : offer ∈ offers := by
  induction offers generalizing output with
  | nil => cases member
  | cons first offers ih =>
    rw [written, List.mem_append, Option.mem_toList] at member
    rcases member with wrote | later
    · rw [wrote?] at wrote
      split at wrote
      · cases wrote
        exact List.mem_cons_self
      · cases wrote
    · exact List.mem_cons_of_mem first (ih _ later)

/-- The offer with as much of its content as reaches the disk, if a file is opened for it. -/
def laid? (output : Output) (policy : OverwritePolicy) (root : Bytes) (offer : Offer) :
    Option Offer :=
  match (output.offer policy root offer).1 with
  | .ok .written => some offer
  | .ok _ => none
  | .error failure =>
    if failure.isCut then
      some { offer with content := output.device.taken (below root offer.path) offer.content }
    else none

/-- The offers that a file is opened for, with as much of their contents as reaches the disk. -/
def laid (output : Output) (policy : OverwritePolicy) (root : Bytes) : List Offer → List Offer
  | [] => []
  | offer :: offers =>
    (output.laid? policy root offer).toList ++
      (output.offer policy root offer).2.laid policy root offers

/-- What the files are that have been written, in whole or in part: each lies where its path leads
up to the first NUL, and each place holds the last one that came to lie there. -/
structure Lays (start : Disk) (home : Place) (root : Bytes) (written laid : List Offer)
    (output : Output) : Prop where
  grown : Grown start output.disk
  whole : written ⊆ laid
  proper : ∀ offer ∈ laid, Canonical (Bytes.untilNul offer.path)
  leads : ∀ offer ∈ laid,
    output.disk.destination (below root offer.path) = offer.seen home
  last : ∀ place, output.disk.file? place =
    ((laid.filter (·.seen home = place)).getLast?.map Offer.content).or (start.file? place)
  known : ∀ offer ∈ written,
    output.index[offer.path]? = some (.ofContent offer.content)
  distinct : (written.map Offer.path).Nodup

namespace Lays

variable {start : Disk} {home : Place} {written laid : List Offer} {output : Output} {offer : Offer}

theorem nil (output : Output) : Lays output.disk home root [] [] output :=
  ⟨.refl output.disk, List.Subset.refl _, nofun, nofun, fun _ => rfl, nofun, List.nodup_nil⟩

theorem path_ne (lays : Lays start home root written laid output)
    (fresh : output.index[offer.path]? = none) {first : Offer} (member : first ∈ written) :
    first.path ≠ offer.path := by
  intro same
  have recorded := lays.known first member
  rw [same, fresh] at recorded
  cases recorded

theorem known_record (lays : Lays start home root written laid output)
    (fresh : output.index[offer.path]? = none) (print : Fingerprint) {first : Offer}
    (member : first ∈ written) :
    (output.index.insert offer.path print)[first.path]? = some (.ofContent first.content) := by
  simp only [Std.ExtTreeMap.getElem?_insert, Std.LawfulEqCmp.compare_eq_iff_eq]
  rw [if_neg (lays.path_ne fresh member).symm]
  exact lays.known first member

theorem unchanged (lays : Lays start home root written laid output) {after : Disk}
    (grown : Grown output.disk after) (same : SameOutside (fun _ => False) output.disk after) :
    Lays start home root written laid { output with disk := after } := by
  refine ⟨lays.grown.trans grown, lays.whole, lays.proper, ?_, ?_, lays.known, lays.distinct⟩
  · intro offer member
    rw [same.destination_eq]
    exact lays.leads offer member
  · intro place
    exact (same.2 place id).trans (lays.last place)

theorem lay (lays : Lays start home root written laid output)
    (led : start.destination root = home) (opens : output.disk.Starts root → output.disk.Opens root)
    (canonical : Canonical offer.path) {after : Disk}
    (done : put output.disk (below root offer.path) offer.content = (.ok (), after)) :
    Lays start home root written (laid ++ [offer]) { output with disk := after } := by
  have grown := put_grown output.disk (below root offer.path) offer.content
  rw [done] at grown
  have dest : output.disk.destination root = home := by
    rw [destination, lays.grown.current]
    exact led
  obtain ⟨_, whole, _, arrived, holds⟩ :=
    put_cut (fun starts => (opens starts).destination_eq) canonical done
  rw [dest] at arrived holds
  change ∀ place, after.file? place =
    if place = offer.seen home then some offer.content else output.disk.file? place at holds
  refine ⟨lays.grown.trans grown, List.subset_append_of_subset_left _ lays.whole, ?_, ?_, ?_,
    lays.known, lays.distinct⟩
  · exact List.forall_mem_append.mpr ⟨lays.proper, by simpa using whole⟩
  · intro first member
    rcases List.mem_append.mp member with member | single
    · rw [← lays.leads first member, destination, destination, ← grown.current]
    · rw [List.mem_singleton.mp single]
      exact arrived
  · intro place
    refine (holds place).trans ?_
    rw [List.filter_append]
    by_cases same : offer.seen home = place
    · rw [if_pos same.symm, List.filter_singleton, decide_eq_true same]
      simp
    · rw [if_neg (Ne.symm same), List.filter_singleton, decide_eq_false same]
      simpa using lays.last place

theorem note (lays : Lays start home root written laid output)
    (fresh : output.index[offer.path]? = none) (member : offer ∈ laid) :
    Lays start home root (written ++ [offer]) laid
      (output.record offer.path (.ofContent offer.content)) := by
  refine ⟨lays.grown, List.append_subset.mpr ⟨lays.whole, by simpa using member⟩, lays.proper,
    lays.leads, lays.last, ?_, ?_⟩
  · intro first member
    rcases List.mem_append.mp member with member | single
    · exact lays.known_record fresh _ member
    · rw [List.mem_singleton.mp single, record, Std.ExtTreeMap.getElem?_insert_self]
  · rw [List.map_append, List.map_singleton, List.nodup_append]
    refine ⟨lays.distinct, by simp, ?_⟩
    intro path listed other single
    obtain ⟨first, member, rfl⟩ := List.mem_map.mp listed
    rw [List.mem_singleton.mp single]
    exact lays.path_ne fresh member

theorem step (lays : Lays start home root written laid output)
    (led : start.destination root = home) (opens : output.disk.Starts root → output.disk.Opens root)
    (canonical : Canonical offer.path) :
    Lays start home root (written ++ (output.wrote? policy root offer).toList)
      (laid ++ (output.laid? policy root offer).toList) (output.offer policy root offer).2 := by
  have answer := output.answers policy root offer
  rw [wrote?, laid?]
  generalize (output.offer policy root offer).1 = result at answer ⊢
  generalize (output.offer policy root offer).2 = after at answer ⊢
  cases answer with
  | duplicate | collision | unseen =>
    simpa [Failure.isCut] using lays
  | kept fresh keeps =>
    have noted : Lays start home root written laid
        (output.record offer.path (.ofContent offer.content)) :=
      ⟨lays.grown, lays.whole, lays.proper, lays.leads, lays.last,
        fun first => lays.known_record fresh _, lays.distinct⟩
    simpa using noted
  | failed fresh free put =>
    have grown := put_grown output.disk (below root offer.path)
      (output.device.taken (below root offer.path) offer.content)
    rw [put] at grown
    dsimp only
    rw [(put_error_cases put).1.2]
    simpa using lays.unchanged grown (put_error put)
  | cut fresh free lacking put =>
    have laid := @lay root start home written laid output
      { offer with content := output.device.taken (below root offer.path) offer.content }
      lays led opens canonical _ put
    simpa [Failure.isCut] using laid
  | written fresh free whole put =>
    have laid := lays.lay led opens canonical put
    exact laid.note fresh (List.mem_append_right _ (List.mem_singleton_self offer))

end Lays

/-- Offers leave the root open, or unreachable. -/
theorem offer_opens {output : Output} (opens : output.disk.Starts root → output.disk.Opens root)
    {offer : Offer} (canonical : Canonical offer.path) :
    (output.offer policy root offer).2.disk.Starts root →
      (output.offer policy root offer).2.disk.Opens root := by
  by_cases starts : output.disk.Starts root
  · exact fun _ => (output.offer_grown policy root offer).opens (opens starts)
  · have same : (output.offerAll policy root [offer]).disk = output.disk :=
      offerAll_adrift starts policy (by simpa using canonical)
    intro starts'
    exact absurd (same ▸ starts') starts

theorem Lays.offerAll {start : Disk} {home : Place} {written laid : List Offer} {output : Output}
    (lays : Lays start home root written laid output) (led : start.destination root = home)
    (opens : output.disk.Starts root → output.disk.Opens root) (policy : OverwritePolicy)
    {offers : List Offer} (canonical : ∀ offer ∈ offers, Canonical offer.path) :
    Lays start home root (written ++ output.written policy root offers)
      (laid ++ output.laid policy root offers) (output.offerAll policy root offers) := by
  induction offers generalizing output written laid with
  | nil =>
    rw [Output.written, Output.laid, List.append_nil, List.append_nil]
    exact lays
  | cons offer offers ih =>
    obtain ⟨proper, others⟩ := List.forall_mem_cons.mp canonical
    rw [Output.written, Output.laid, ← List.append_assoc, ← List.append_assoc]
    exact ih (lays.step led opens proper) (offer_opens opens proper) others

end Output

end Unbundle
