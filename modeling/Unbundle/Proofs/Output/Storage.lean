import Unbundle.Proofs.Disk.Making
import Unbundle.Proofs.Output.Offers

namespace Unbundle

open Ascii Disk Unbundle.Path

/-- The disk with a file stored at a place, and directories on the way to it. -/
structure Disk.Stored (before : Disk) (target : Place) (content : Bytes) (after : Disk) : Prop where
  current : after.current = before.current
  file : ∀ place,
    after.file? place = if place = target then some content else before.file? place
  directory : ∀ place,
    after.find? place = some .directory ↔
      before.find? place = some .directory ∨ place <+: target ∧ place ≠ target

namespace Output

variable {disk : Disk} {root content : Bytes} {home : Place} {inner : List Bytes} {name : Bytes}

private theorem wantsDirectory_textAt (way : Way root (inner ++ [name])) :
    wantsDirectory (Bytes.untilNul (textAt root (inner ++ [name]))) = false := by
  have last := way.fileNames name (List.mem_append_right _ (List.mem_singleton_self _))
  obtain ⟨ending, whole, _, _⟩ := textAt_concat root way.fileNames.names
  obtain ⟨front, b, rfl⟩ := (List.eq_nil_or_concat' name).resolve_left last.nonempty
  rw [Bytes.untilNul_eq_self way.plain, wantsDirectory, whole, ← List.append_assoc,
    List.getLast?_concat]
  apply decide_eq_false
  intro same
  cases same
  exact last.plain (List.mem_append_right _ (List.mem_singleton_self _))

/-- A file is written where no directory stands, in a directory that does. -/
theorem write_textAt (opened : disk.locate root = .ok home) (way : Way root (inner ++ [name]))
    (inside : disk.find? (home ++ inner) = some .directory)
    (free : disk.find? (home ++ (inner ++ [name])) ≠ some .directory) (content : Bytes) :
    ∃ after, disk.write (textAt root (inner ++ [name])) content = .ok after ∧
      disk.place? (home ++ (inner ++ [name])) (.file content) = .ok after := by
  have above : (home ++ (inner ++ [name])).dropLast = home ++ inner := by
    rw [← List.append_assoc, List.dropLast_concat]
  have placed : ∃ after, disk.place? (home ++ (inner ++ [name])) (.file content) = .ok after := by
    rw [place?, dif_neg free, dif_pos (by rwa [above])]
    exact ⟨_, rfl⟩
  obtain ⟨after, placed⟩ := placed
  refine ⟨after, ?_, placed⟩
  rw [Disk.write, wantsDirectory_textAt way, if_neg (by decide), locate_textAt opened way,
    follow_concat way.fileNames inside, List.append_assoc]
  exact placed

private theorem put_textAt (opened : disk.locate root = .ok home)
    (directory : disk.find? home = some .directory) (way : Way root (inner ++ [name]))
    (depth : inner.length ≤ maxDepth)
    (above : ∀ outer, outer <+: inner → disk.file? (home ++ outer) = none)
    (free : disk.find? (home ++ (inner ++ [name])) ≠ some .directory) (content : Bytes) :
    ∃ after, put disk (textAt root (inner ++ [name])) content = (.ok (), after) ∧
      Disk.Stored disk (home ++ (inner ++ [name])) content after := by
  obtain ⟨middle, made, changed⟩ := makeDirectories_textAt opened directory way.outer depth above
  have passing (place : Place) : place <+: home ++ (inner ++ [name]) ∧
      place ≠ home ++ (inner ++ [name]) ↔ place <+: home ++ inner := by
    rw [← List.append_assoc]
    exact above_concat_iff
  have stillFree : middle.find? (home ++ (inner ++ [name])) ≠ some .directory := by
    intro stands
    rcases (changed.directory _).mp stands with stood | passed
    · exact free stood
    · exact ((passing _).mpr passed).2 rfl
  obtain ⟨after, written, placed⟩ := write_textAt (changed.grown.locate_eq opened) way
    changed.target_directory stillFree content
  refine ⟨after, ?_, (current_of_place? placed).trans changed.same.1, ?_, ?_⟩
  · rw [put, makeParent, parent_textAt root way.fileNames.names,
      if_neg (textAt_ne_nil (root_ne_nil opened) way.outer.fileNames.names), made]
    dsimp only
    rw [written]
  · intro place
    by_cases same : place = home ++ (inner ++ [name])
    · rw [if_pos same, file?, find?_place? placed, if_pos same]
    · rw [if_neg same, ← changed.file?_eq]
      apply file?_congr
      rw [find?_place? placed, if_neg same]
  · intro place
    rw [find?_place? placed]
    by_cases same : place = home ++ (inner ++ [name])
    · rw [if_pos same, same]
      simp [free]
    · rw [if_neg same, changed.directory, passing]

end Output

namespace Output

theorem makeParent_grown (disk : Disk) (target : Bytes) :
    Grown disk (makeParent disk target).2 := by
  rw [makeParent]
  by_cases top : parent target = []
  · rw [if_pos top]
    exact .refl disk
  · rw [if_neg top]
    exact disk.makeDirectories_grown _

theorem put_grown (disk : Disk) (target content : Bytes) :
    Grown disk (put disk target content).2 := by
  have parent := makeParent_grown disk target
  rcases stored : put disk target content with ⟨failure | _, after⟩
  · rcases (put_error_cases stored).2 with ⟨problem, made⟩ | ⟨made, _⟩
    · rwa [made] at parent
    · rwa [made] at parent
  · obtain ⟨middle, made, written⟩ := put_ok_cases stored
    rw [made] at parent
    exact parent.trans (write_grown written)

theorem offer_grown (output : Output) (policy : OverwritePolicy) (root : Bytes) (offer : Offer) :
    Grown output.disk (output.offer policy root offer).2.disk := by
  rcases output.offer_disk policy root offer with same | stored
  · rw [same]
    exact .refl output.disk
  · rw [stored]
    exact put_grown ..

/-- Offers remove nothing, whatever becomes of them. -/
theorem offerAll_grown (output : Output) (policy : OverwritePolicy) (root : Bytes)
    (offers : List Offer) : Grown output.disk (output.offerAll policy root offers).disk := by
  induction offers generalizing output with
  | nil => exact .refl output.disk
  | cons offer offers ih => exact (output.offer_grown policy root offer).trans (ih _)

theorem offerEach_grown (output : Output) (policy : OverwritePolicy) (root : Bytes)
    (offers : List Offer) : Grown output.disk (output.offerEach policy root offers).2.disk := by
  rw [output.offerEach_output]
  exact output.offerAll_grown ..

end Output

/-- Where an offered file belongs below a root. -/
def Offer.place (home : Place) (offer : Offer) : Place := home ++ segments offer.path

/-- Files that can lie side by side: each path has one content, and none lies below another. -/
structure Consistent (offers : List Offer) : Prop where
  agree : ∀ offer ∈ offers, ∀ other ∈ offers, offer.path = other.path →
    offer.content = other.content
  apart : ∀ offer ∈ offers, ∀ other ∈ offers, segments offer.path <+: segments other.path →
    offer.path = other.path

/-- Files that can lie side by side, for paths that the system takes. -/
structure Compatible (root : Bytes) (offers : List Offer) : Prop extends Consistent offers where
  way : ∀ offer ∈ offers, Way root (segments offer.path)
  depth : ∀ offer ∈ offers, (segments offer.path).length ≤ maxDepth

/-- A disk on which nothing stands in the way of offers. -/
structure Disk.Free (disk : Disk) (home : Place) (offers : List Offer) : Prop where
  directory : ∀ offer ∈ offers, disk.find? (offer.place home) ≠ some .directory
  file : ∀ offer ∈ offers, ∀ outer, outer <+: segments offer.path →
    outer ≠ segments offer.path → disk.file? (home ++ outer) = none

/-- A disk that holds no files below a place but such as offers replace, and no directory where a
file belongs. -/
structure Disk.Vacated (disk : Disk) (home : Place) (offers : List Offer) : Prop where
  file : ∀ place, home <+: place → disk.file? place ≠ none →
    ∃ offer ∈ offers, offer.place home = place
  directory : ∀ offer ∈ offers, disk.find? (offer.place home) ≠ some .directory

/-- A disk that can take all offers below a root. -/
structure Disk.Accepts (disk : Disk) (root : Bytes) (home : Place) (offers : List Offer) :
    Prop where
  opened : disk.locate root = .ok home
  inside : disk.find? home = some .directory
  compatible : Compatible root offers
  clear : disk.Free home offers

/-- An output that holds the files offered so far, over what the disk held at the start. -/
structure Output.Holds (start : Disk) (home : Place) (done : List Offer) (output : Output) :
    Prop where
  current : output.disk.current = start.current
  index : ∀ path print, output.index[path]? = some print ↔
    ∃ offer ∈ done, offer.path = path ∧ Fingerprint.ofContent offer.content = print
  stored : ∀ offer ∈ done, output.disk.file? (offer.place home) = some offer.content
  kept : ∀ place, (∀ offer ∈ done, offer.place home ≠ place) →
    output.disk.file? place = start.file? place
  directory : ∀ place, output.disk.find? place = some .directory ↔
    start.find? place = some .directory ∨
      ∃ offer ∈ done, place <+: offer.place home ∧ place ≠ offer.place home

theorem Offer.place_below (home : Place) (offer : Offer) : home <+: offer.place home :=
  List.prefix_append home _

theorem Offer.place_ne (home : Place) (offer : Offer) : offer.place home ≠ home := by
  rw [Offer.place, ne_eq, List.append_right_eq_self]
  exact segments_ne_nil offer.path

theorem Offer.place_inj {home : Place} {offer other : Offer}
    (same : offer.place home = other.place home) : offer.path = other.path := by
  have parts := List.append_cancel_left same
  rw [← join_segments offer.path, parts, join_segments]

namespace Consistent

variable {offers : List Offer} {offer other : Offer} {outer : List Bytes}

/-- A way that ends above the path of an offer leads to no other one. -/
theorem place_ne (consistent : Consistent offers) (home : Place) (member : offer ∈ offers)
    (present : other ∈ offers) (above : outer <+: segments offer.path)
    (different : outer ≠ segments offer.path) : other.place home ≠ home ++ outer := by
  intro same
  have parts : segments other.path = outer := List.append_cancel_left same
  have paths := consistent.apart other present offer member (parts ▸ above)
  exact different (by rw [← parts, paths])

theorem eq_of_path (consistent : Consistent offers) (member : offer ∈ offers)
    (present : other ∈ offers) (same : offer.path = other.path) : offer = other := by
  have contents := consistent.agree offer member other present same
  cases offer
  cases other
  cases same
  cases contents
  rfl

end Consistent

/-- Where only files are left that are replaced, none is in another one's way. -/
theorem Disk.Vacated.free {disk : Disk} {home : Place} {offers : List Offer}
    (vacated : disk.Vacated home offers) (consistent : Consistent offers) :
    disk.Free home offers := by
  constructor
  · exact vacated.directory
  · intro offer member outer above different
    apply Decidable.byContradiction
    intro stands
    obtain ⟨other, present, same⟩ :=
      vacated.file (home ++ outer) (List.prefix_append home outer) stands
    exact consistent.place_ne home member present above different same

namespace Output.Holds

variable {start : Disk} {root : Bytes} {home : Place} {done offers : List Offer} {offer : Offer}
  {output : Output} {policy : OverwritePolicy}

theorem congr {others : List Offer} (holds : Holds start home done output)
    (same : ∀ offer, offer ∈ others ↔ offer ∈ done) : Holds start home others output := by
  constructor
  · exact holds.current
  · intro path print
    rw [holds.index]
    simp only [same]
  · intro offer member
    exact holds.stored offer ((same offer).mp member)
  · intro place different
    exact holds.kept place fun offer member => different offer ((same offer).mpr member)
  · intro place
    rw [holds.directory]
    simp only [same]

theorem nil {index : OutputIndex} {device : Device} (empty : index = ∅) :
    Holds start home [] { disk := start, index, device } := by
  constructor
  · rfl
  · intro path print
    rw [empty]
    simp
  · exact nofun
  · exact fun _ _ => rfl
  · simp

theorem grown (holds : Holds start home done output) : Grown start output.disk := by
  refine ⟨holds.current, ?_, ?_⟩
  · intro place stands
    exact (holds.directory place).mpr (.inl stands)
  · intro place stands
    by_cases offered : ∃ offer ∈ done, offer.place home = place
    · obtain ⟨offer, member, rfl⟩ := offered
      rw [holds.stored offer member]
      exact nofun
    · rw [holds.kept place fun offer member same => offered ⟨offer, member, same⟩]
      exact stands

theorem accepts (holds : Holds start home done output) (accepted : start.Accepts root home offers)
    (part : done ⊆ offers) : output.disk.Accepts root home offers := by
  have apart := accepted.compatible.toConsistent
  constructor
  · exact holds.grown.locate_eq accepted.opened
  · exact holds.grown.directory home accepted.inside
  · exact accepted.compatible
  · constructor
    · intro offer member stands
      rcases (holds.directory _).mp stands with stood | ⟨other, present, above, different⟩
      · exact accepted.clear.directory offer member stood
      · have above := (List.prefix_append_right_inj home).mp above
        have differ : segments offer.path ≠ segments other.path :=
          fun same => different (congrArg (home ++ ·) same)
        exact apart.place_ne home (part present) member above differ rfl
    · intro offer member outer above different
      rw [holds.kept, accepted.clear.file offer member outer above different]
      intro other present
      exact apart.place_ne home member (part present) above different

/-- An offer that nothing stands in the way of is put in its place. -/
theorem put_below {disk : Disk} (accepted : disk.Accepts root home offers)
    (member : offer ∈ offers) :
    ∃ after, put disk (below root offer.path) offer.content = (.ok (), after) ∧
      Disk.Stored disk (offer.place home) offer.content after := by
  obtain ⟨inner, name, parts⟩ := (List.eq_nil_or_concat' (segments offer.path)).resolve_left
    (segments_ne_nil offer.path)
  have way := accepted.compatible.way offer member
  have depth := accepted.compatible.depth offer member
  have free := accepted.clear.directory offer member
  have text : below root offer.path = textAt root (inner ++ [name]) := by
    rw [below_eq_textAt, parts]
  have above (outer : List Bytes) (passed : outer <+: inner) : disk.file? (home ++ outer) = none := by
    have proper := (@above_concat_iff outer inner name).mpr passed
    rw [← parts] at proper
    exact accepted.clear.file offer member outer proper.1 proper.2
  rw [Offer.place] at free ⊢
  rw [parts] at way depth free ⊢
  rw [List.length_append, List.length_singleton] at depth
  rw [text]
  exact put_textAt accepted.opened accepted.inside way (by omega) above free offer.content

theorem store (holds : Holds start home done output) (fresh : output.index[offer.path]? = none)
    {after : Disk} (stored : Disk.Stored output.disk (offer.place home) offer.content after) :
    Holds start home (done ++ [offer])
      ({ output with disk := after }.record offer.path (.ofContent offer.content)) := by
  have different (other : Offer) (present : other ∈ done) : offer.path ≠ other.path := by
    intro same
    have recorded := (holds.index offer.path _).mpr ⟨other, present, same.symm, rfl⟩
    rw [fresh] at recorded
    cases recorded
  constructor
  · exact stored.current.trans holds.current
  · intro path print
    rw [record]
    dsimp only
    rw [Std.ExtTreeMap.getElem?_insert]
    by_cases same : offer.path = path
    · rw [if_pos (by simpa using same)]
      constructor
      · intro recorded
        exact ⟨offer, by simp, same, Option.some.inj recorded⟩
      · rintro ⟨other, present, rfl, rfl⟩
        rcases List.mem_append.mp present with present | present
        · exact absurd same (different other present)
        · rw [List.mem_singleton.mp present]
    · rw [if_neg (by simpa using same), holds.index]
      constructor
      · rintro ⟨other, present, found⟩
        exact ⟨other, List.mem_append_left _ present, found⟩
      · rintro ⟨other, present, path, print⟩
        rcases List.mem_append.mp present with present | present
        · exact ⟨other, present, path, print⟩
        · rw [List.mem_singleton.mp present] at path
          exact absurd path same
  · intro other present
    rw [record]
    dsimp only
    rw [stored.file]
    rcases List.mem_append.mp present with present | present
    · rw [if_neg fun same => different other present (Offer.place_inj same).symm]
      exact holds.stored other present
    · rw [List.mem_singleton.mp present, if_pos rfl]
  · intro place others
    obtain ⟨done, last⟩ := List.forall_mem_append.mp others
    rw [record]
    dsimp only
    rw [stored.file, if_neg fun same => last offer (List.mem_singleton_self _) same.symm]
    exact holds.kept place done
  · intro place
    rw [record]
    dsimp only
    rw [stored.directory, holds.directory]
    simp only [List.mem_append, List.mem_singleton, or_and_right, exists_or, exists_eq_left]
    rw [or_assoc]

theorem offer_ok (holds : Holds start home done output)
    (accepted : start.Accepts root home offers) (replaces : policy ≠ .keep)
    (takes : output.device.TakesAll root offers) (part : done ⊆ offers) (member : offer ∈ offers) :
    ∃ outcome after, output.offer policy root offer = (.ok outcome, after) ∧
      Holds start home (done ++ [offer]) after := by
  rw [Output.offer, write]
  cases found : output.index[offer.path]? with
  | some print =>
    obtain ⟨other, present, path, rfl⟩ := (holds.index _ _).mp found
    obtain rfl := accepted.compatible.eq_of_path (part present) member path
    refine ⟨.duplicate, output, ?_, ?_⟩
    · dsimp only
      rw [if_pos (Fingerprint.agrees_self _)]
    · apply holds.congr
      intro other
      rw [List.mem_append, List.mem_singleton]
      constructor
      · rintro (earlier | rfl)
        · exact earlier
        · exact present
      · exact .inl
  | none =>
    obtain ⟨after, put, stored⟩ := put_below (holds.accepts accepted part) member
    refine ⟨.written, _, ?_, holds.store found stored⟩
    dsimp only
    rw [isKept, if_neg replaces]
    dsimp only
    rw [store_ok_iff.mpr ⟨takes offer member, put⟩]

/-- Offers that do not stand in each other's way are all stored. -/
theorem offerEach_ok (holds : Holds start home done output)
    (accepted : start.Accepts root home offers) (replaces : policy ≠ .keep)
    (takes : output.device.TakesAll root offers) (part : done ⊆ offers)
    {more : List Offer} (included : more ⊆ offers) :
    ∃ outcomes after, output.offerEach policy root more = (.ok outcomes, after) ∧
      Holds start home (done ++ more) after := by
  induction more generalizing output done with
  | nil => exact ⟨[], output, rfl, by rwa [List.append_nil]⟩
  | cons offer more ih =>
    obtain ⟨member, others⟩ := List.cons_subset.mp included
    obtain ⟨outcome, middle, made, held⟩ :=
      holds.offer_ok accepted replaces takes part member
    have device := output.offer_device policy root offer
    rw [made] at device
    change middle.device = output.device at device
    have grew : done ++ [offer] ⊆ offers :=
      List.append_subset.mpr ⟨part, List.cons_subset.mpr ⟨member, List.nil_subset _⟩⟩
    obtain ⟨outcomes, after, rest, final⟩ := ih held (device ▸ takes) grew others
    refine ⟨outcome :: outcomes, after, ?_, ?_⟩
    · rw [Output.offerEach, made]
      dsimp only
      rw [rest]
    · rwa [List.append_cons]

end Output.Holds

end Unbundle
