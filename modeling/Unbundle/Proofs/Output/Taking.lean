import Unbundle.Proofs.Output.Following
import Unbundle.Proofs.Run.Registry

namespace Unbundle

open Disk Unbundle.Path

namespace Output

variable {policy : OverwritePolicy} {root : Bytes} {output next final : Output}
  {offer other : Offer} {offers : List Offer} {outcome : Outcome} {outcomes : List Outcome}
  {index : OutputIndex}

/-- All that can come of an offer that does not fail. -/
inductive Takes (output : Output) (policy : OverwritePolicy) (root : Bytes) (offer : Offer) :
    Outcome → Output → Prop where
  | duplicate (known : output.Knows offer.path offer.content) :
      Takes output policy root offer .duplicate output
  | kept (fresh : output.index[offer.path]? = none)
      (stands : output.isKept policy (below root offer.path) = .ok true) :
      Takes output policy root offer .kept (output.record offer.path (.ofContent offer.content))
  | written {disk : Disk} (fresh : output.index[offer.path]? = none)
      (free : output.isKept policy (below root offer.path) = .ok false)
      (whole : output.device.cut? (below root offer.path) offer.content = none)
      (done : put output.disk (below root offer.path) offer.content = (.ok (), disk)) :
      Takes output policy root offer .written
        ({ output with disk }.record offer.path (.ofContent offer.content))

theorem offer_known (known : output.Knows offer.path offer.content) (policy : OverwritePolicy)
    (root : Bytes) : output.offer policy root offer = (.ok .duplicate, output) := by
  obtain ⟨print, recorded, agrees⟩ := known
  rw [Output.offer, write, recorded]
  dsimp only
  rw [if_pos agrees]

theorem takes_iff :
    output.offer policy root offer = (.ok outcome, next) ↔
      output.Takes policy root offer outcome next := by
  constructor
  · intro taken
    cases recorded : output.index[offer.path]? with
    | some print =>
      rw [Output.offer, write, recorded] at taken
      dsimp only at taken
      split at taken
      · next agrees =>
        cases taken
        exact .duplicate ⟨print, recorded, agrees⟩
      · cases taken
    | none =>
      rcases kept : output.isKept policy (below root offer.path) with problem | _ | _
      · rw [offer_refused recorded kept] at taken
        cases taken
      · rcases stored : output.store (below root offer.path) offer.content with
          ⟨failure | _, disk⟩
        · rw [offer_failed recorded kept stored] at taken
          cases taken
        · rw [offer_written recorded kept stored] at taken
          cases taken
          obtain ⟨whole, done⟩ := store_ok_iff.mp stored
          exact .written recorded kept whole done
      · rw [offer_kept recorded kept] at taken
        cases taken
        exact .kept recorded kept
  · intro takes
    cases takes with
    | duplicate known => exact offer_known known policy root
    | kept fresh stands => exact offer_kept fresh stands
    | written fresh free whole done =>
      exact offer_written fresh free (store_ok_iff.mpr ⟨whole, done⟩)

/-- Offers that none of fails are taken one after the other. -/
theorem offerEach_cons_ok :
    output.offerEach policy root (offer :: offers) = (.ok outcomes, final) ↔
      ∃ outcome next others, output.Takes policy root offer outcome next ∧
        next.offerEach policy root offers = (.ok others, final) ∧ outcomes = outcome :: others := by
  rw [offerEach]
  constructor
  · intro done
    rcases made : output.offer policy root offer with ⟨failure | outcome, next⟩
    · rw [made] at done
      cases done
    rw [made] at done
    dsimp only at done
    rcases rest : next.offerEach policy root offers with ⟨failure | others, last⟩
    · rw [rest] at done
      cases done
    rw [rest] at done
    cases done
    exact ⟨outcome, next, others, takes_iff.mp made, rest, rfl⟩
  · rintro ⟨outcome, next, others, takes, rest, rfl⟩
    rw [takes_iff.mpr takes]
    dsimp only
    rw [rest]

/-! ### What is recorded -/

/-- The index with an offer that was taken. -/
def noted (index : OutputIndex) (offer : Offer) : OutputIndex :=
  if index[offer.path]? = none then index.insert offer.path (.ofContent offer.content) else index

private theorem getElem?_noted (index : OutputIndex) (offer : Offer) (path : Bytes) :
    (noted index offer)[path]? =
      index[path]?.or (if offer.path = path then some (.ofContent offer.content) else none) := by
  rw [noted]
  by_cases fresh : index[offer.path]? = none
  · rw [if_pos fresh, Std.ExtTreeMap.getElem?_insert]
    simp only [Std.LawfulEqCmp.compare_eq_iff_eq]
    by_cases same : offer.path = path
    · rw [if_pos same, if_pos same, ← same, fresh, Option.none_or]
    · rw [if_neg same, if_neg same, Option.or_none]
  · rw [if_neg fresh]
    by_cases same : offer.path = path
    · obtain ⟨print, recorded⟩ := Option.ne_none_iff_exists'.mp fresh
      rw [← same, recorded, Option.some_or]
    · rw [if_neg same, Option.or_none]

theorem noted_eq_none {path : Bytes} :
    (noted index offer)[path]? = none ↔ index[path]? = none ∧ offer.path ≠ path := by
  rw [getElem?_noted, Option.or_eq_none_iff]
  exact and_congr_right fun _ => by simp

theorem noted_comm (agree : offer.path = other.path → offer = other) :
    noted (noted index offer) other = noted (noted index other) offer := by
  apply Std.ExtTreeMap.ext_getElem?
  intro path
  simp only [getElem?_noted]
  by_cases first : offer.path = path
  · by_cases second : other.path = path
    · rw [agree (first.trans second.symm)]
    · rw [if_neg second, Option.or_none, Option.or_none]
  · rw [if_neg first, Option.or_none, Option.or_none]

/-- The index holds the paths that it held and those of the offers. -/
theorem foldl_noted_eq_none {index : OutputIndex} {path : Bytes} :
    (offers.foldl noted index)[path]? = none ↔
      index[path]? = none ∧ ∀ offer ∈ offers, offer.path ≠ path := by
  induction offers generalizing index with
  | nil => simp
  | cons offer offers ih =>
    rw [List.foldl_cons, ih, noted_eq_none, List.forall_mem_cons, and_assoc]

namespace Takes

theorem index_eq (takes : output.Takes policy root offer outcome next) :
    next.index = noted output.index offer := by
  cases takes with
  | duplicate known =>
    obtain ⟨print, recorded, _⟩ := known
    rw [noted, if_neg (by rw [recorded]; exact Option.some_ne_none print)]
  | kept fresh => rw [noted, if_pos fresh]; rfl
  | written fresh => rw [noted, if_pos fresh]; rfl

theorem grown (takes : output.Takes policy root offer outcome next) :
    Grown output.disk next.disk := by
  have grown := output.offer_grown policy root offer
  rwa [takes_iff.mpr takes] at grown

theorem knows (takes : output.Takes policy root offer outcome next) :
    next.Knows offer.path offer.content := by
  have made := takes_iff.mpr takes
  have knows := offer_knows (congrArg Prod.fst made)
  rwa [made] at knows

/-- What was known before is known after. -/
theorem knows_still (takes : output.Takes policy root offer outcome next) {path content : Bytes}
    (known : output.Knows path content) : next.Knows path content := by
  obtain ⟨print, recorded, agrees⟩ := known
  have still : (output.offer policy root offer).2.index[path]? = some print :=
    offer_index recorded offer
  rw [takes_iff.mpr takes] at still
  exact ⟨print, still, agrees⟩

theorem size_eq (takes : output.Takes policy root offer outcome next) :
    next.index.size = output.index.size + [outcome].count .written + [outcome].count .kept := by
  have recorded (fresh : output.index[offer.path]? = none) (print : Fingerprint) :
      (output.index.insert offer.path print).size = output.index.size + 1 := by
    rw [Std.ExtTreeMap.size_insert, if_neg]
    rw [Std.ExtTreeMap.contains_eq_isSome_getElem?, fresh]
    exact Bool.false_ne_true
  cases takes with
  | duplicate => rfl
  | kept fresh => exact recorded fresh _
  | written fresh => exact recorded fresh _

/-- An offer for a new path is no duplicate. -/
theorem ne_duplicate (takes : output.Takes policy root offer outcome next)
    (fresh : output.index[offer.path]? = none) : outcome ≠ .duplicate := by
  rintro rfl
  cases takes with
  | duplicate known =>
    obtain ⟨print, recorded, _⟩ := known
    rw [fresh] at recorded
    cases recorded

theorem of_recorded (takes : output.Takes policy root offer outcome next)
    (recorded : output.index[offer.path]? ≠ none) :
    outcome = .duplicate ∧ output.Knows offer.path offer.content := by
  cases takes with
  | duplicate known => exact ⟨rfl, known⟩
  | kept fresh => exact absurd fresh recorded
  | written fresh => exact absurd fresh recorded

private theorem recorded_still (takes : output.Takes policy root offer outcome next) {path : Bytes}
    (recorded : output.index[path]? ≠ none) : next.index[path]? ≠ none := by
  rw [takes.index_eq, Ne, noted_eq_none]
  exact fun fresh => recorded fresh.1

end Takes

theorem isKept_eq_true {target : Bytes} :
    output.isKept policy target = .ok true ↔
      policy = .keep ∧ output.disk.presence target = .ok true := by
  rw [isKept]
  split
  · next keeps => rw [and_iff_right keeps]
  · next replaces => simp [replaces]

/-! ### Several offers -/

/-- Each offer comes to something, and the index grows by those that are no duplicates. -/
theorem size_offerEach (done : output.offerEach policy root offers = (.ok outcomes, final)) :
    outcomes.length = offers.length ∧
      final.index.size = output.index.size + outcomes.count .written + outcomes.count .kept := by
  induction offers generalizing output outcomes with
  | nil =>
    cases done
    exact ⟨rfl, rfl⟩
  | cons offer offers ih =>
    obtain ⟨outcome, next, others, takes, rest, rfl⟩ := offerEach_cons_ok.mp done
    obtain ⟨length, size⟩ := ih rest
    have counts (kind : Outcome) : (outcome :: others).count kind =
        [outcome].count kind + others.count kind := by
      rw [← List.count_append, List.singleton_append]
    refine ⟨congrArg (· + 1) length, ?_⟩
    rw [size, takes.size_eq, counts, counts]
    omega

/-- What is recorded for a path agrees with each offer for it that does not fail. -/
theorem knows_of_done (member : offer ∈ offers) (recorded : output.index[offer.path]? ≠ none)
    (done : output.offerEach policy root offers = (.ok outcomes, final)) :
    output.Knows offer.path offer.content := by
  induction offers generalizing output outcomes with
  | nil => cases member
  | cons head offers ih =>
    obtain ⟨outcome, next, others, takes, rest, rfl⟩ := offerEach_cons_ok.mp done
    rcases List.mem_cons.mp member with rfl | member
    · exact (takes.of_recorded recorded).2
    · obtain ⟨print, noted, agrees⟩ := ih member (takes.recorded_still recorded) rest
      obtain ⟨print', recorded⟩ := Option.ne_none_iff_exists'.mp recorded
      have still : (output.offer policy root head).2.index[offer.path]? = some print' :=
        offer_index recorded head
      rw [takes_iff.mpr takes, noted] at still
      cases still
      exact ⟨print, recorded, agrees⟩

/-! ### What is told of the outcomes -/

/-- What becomes of offers, told by what becomes of each if its path is new. -/
def foretell (first : Offer → Outcome) (index : OutputIndex) : List Offer → List Outcome
  | [] => []
  | offer :: offers =>
    (if index[offer.path]? = none then first offer else .duplicate) ::
      foretell first (noted index offer) offers

/-- In another order, the same is foretold of the same offers, all in all. -/
theorem foretell_perm (first : Offer → Outcome) {offers others : List Offer}
    (perm : others.Perm offers)
    (agree : ∀ offer ∈ offers, ∀ other ∈ offers, offer.path = other.path → offer = other)
    (index : OutputIndex) :
    (others.zip (foretell first index others)).Perm (offers.zip (foretell first index offers)) := by
  induction perm generalizing index with
  | nil => exact .nil
  | cons offer perm ih =>
    refine .cons _ (ih (fun one member two member' => ?_) _)
    exact agree one (.tail _ member) two (.tail _ member')
  | swap one two offers =>
    by_cases same : one = two
    · rw [same]
    have apart : one.path ≠ two.path :=
      fun paths => same (agree one (.head _) two (.tail _ (.head _)) paths)
    have looks (offer other : Offer) (differ : offer.path ≠ other.path) :
        (noted index offer)[other.path]? = none ↔ index[other.path]? = none := by
      rw [noted_eq_none, and_iff_left differ]
    simp only [foretell, List.zip_cons_cons, looks one two apart, looks two one apart.symm,
      noted_comm (fun paths => absurd paths apart)]
    exact .swap _ _ _
  | trans perm perm' ih ih' =>
    refine (ih (fun one member two member' => ?_) index).trans (ih' agree index)
    exact agree one (perm'.mem_iff.mp member) two (perm'.mem_iff.mp member')

end Output

end Unbundle
