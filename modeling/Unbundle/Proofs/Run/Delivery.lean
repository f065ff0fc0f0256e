import Unbundle.Proofs.Container.RoundTrip
import Unbundle.Proofs.Run.Offers
import Unbundle.Proofs.Run.Preparation
import Unbundle.Proofs.Run.Queue
import Unbundle.Run.Execution

namespace Unbundle

open Ascii Disk Unbundle.Path

/-- A package as it was built: its file name and the files that it was built from. -/
structure Shipment where
  name : Bytes
  files : List Container.File
  deriving DecidableEq, Repr

namespace Shipment

def bytes (shipment : Shipment) : Bytes := Container.encode shipment.files

def offers (shipment : Shipment) : List Offer :=
  shipment.files.map fun file => ⟨file.path, file.content⟩

/-- The files of many packages, in order. -/
def allOffers (shipments : List Shipment) : List Offer := shipments.flatMap offers

theorem offers_subset {shipment : Shipment} {shipments : List Shipment}
    (member : shipment ∈ shipments) : shipment.offers ⊆ allOffers shipments := by
  intro offer offered
  exact List.mem_flatMap.mpr ⟨shipment, member, offered⟩

end Shipment

/-- The packages in a directory, all of them. -/
structure Delivered (settings : Settings) (disk : Disk) (place : Place)
    (shipments : List Shipment) : Prop where
  nonempty : shipments ≠ []
  plain : ∀ shipment ∈ shipments, slash ∉ shipment.name ∧ nul ∉ shipment.name
  named : ∀ shipment ∈ shipments, extension shipment.name = settings.containerExtension
  stored : ∀ shipment ∈ shipments, disk.file? (place ++ [shipment.name]) = some shipment.bytes
  complete : ∀ name, disk.file? (place ++ [name]) ≠ none →
    extension name = settings.containerExtension → ∃ shipment ∈ shipments, shipment.name = name

/-- Packages that can be read and whose files are unpacked as they are. -/
structure Verbatim (settings : Settings) (shipments : List Shipment) : Prop where
  packable : ∀ shipment ∈ shipments, Container.Packable shipment.files
  count : ∀ shipment ∈ shipments, shipment.files.length ≤ settings.maxEntryCount.toNat
  script : ∀ offer ∈ Shipment.allOffers shipments, settings.isBundle ⟨offer.path, 0, 0⟩ = false
  config : ∀ offer ∈ Shipment.allOffers shipments, offer.path ≠ AppConfig.fileName

namespace Verbatim

variable {settings : Settings} {shipments : List Shipment} {shipment other : Shipment}

/-- A package has an entry for each of its files. -/
theorem exists_entries (verbatim : Verbatim settings shipments) (member : shipment ∈ shipments) :
    ∃ entries, Container.parse settings.maxEntryCount.toNat shipment.bytes = .ok entries ∧
      entries.map (fun entry => (⟨entry.path, entry.content shipment.bytes⟩ : Offer)) =
        shipment.offers := by
  obtain ⟨entries, parsed, same⟩ := Container.parse_encode (verbatim.packable shipment member)
    (verbatim.count shipment member)
  have pairs := congrArg (List.map fun pair : Bytes × Bytes => (⟨pair.1, pair.2⟩ : Offer)) same
  rw [List.map_map, List.map_map] at pairs
  exact ⟨entries, parsed, pairs⟩

/-- The bytes of a package tell its files. -/
theorem offers_eq (verbatim : Verbatim settings shipments) (member : shipment ∈ shipments)
    (present : other ∈ shipments) (same : other.bytes = shipment.bytes) :
    other.offers = shipment.offers := by
  obtain ⟨entries, parsed, offered⟩ := verbatim.exists_entries member
  obtain ⟨others, parsed', offered'⟩ := verbatim.exists_entries present
  rw [same] at parsed' offered'
  obtain rfl := Except.ok.inj (parsed.symm.trans parsed')
  exact offered'.symm.trans offered

theorem canonical (verbatim : Verbatim settings shipments) {offer : Offer}
    (member : offer ∈ Shipment.allOffers shipments) : Canonical offer.path := by
  obtain ⟨shipment, listed, offered⟩ := List.mem_flatMap.mp member
  obtain ⟨file, packed, rfl⟩ := List.mem_map.mp offered
  obtain ⟨path, found⟩ :=
    Option.ne_none_iff_exists'.mp ((verbatim.packable shipment listed).named file packed)
  dsimp only
  rw [Container.File.path, found]
  exact canonical_of_canonical? found

end Verbatim

namespace Plan

theorem offers_ofEntries {json : Json.Library} {settings : Settings} {package bytes : Bytes}
    {entries : List Container.Entry}
    (script : ∀ entry ∈ entries, settings.isBundle entry = false)
    (config : ∀ entry ∈ entries, entry.path ≠ AppConfig.fileName) :
    offers (ofEntries json settings package bytes entries) =
      entries.map fun entry => ⟨entry.path, entry.content bytes⟩ := by
  rw [ofEntries]
  generalize (entries.any fun entry => entry.path = AppConfig.commonFileName) = hasCommon
  induction entries with
  | nil => rfl
  | cons entry entries ih =>
    obtain ⟨plain, scripts⟩ := List.forall_mem_cons.mp script
    obtain ⟨other, configs⟩ := List.forall_mem_cons.mp config
    have first : ofEntry json settings package hasCommon bytes entry =
        [.write .entry entry.path (entry.content bytes)] := by
      rw [ofEntry, if_neg (by simp [plain]), if_neg other]
    have rest := ih scripts configs
    rw [offers] at rest ⊢
    rw [List.flatMap_cons, List.filterMap_append, rest, first]
    rfl

end Plan

namespace Workspace

variable {space : Workspace} {policy : OverwritePolicy} {root : Bytes} {package : Package}
  {settings : Settings} {shipments : List Shipment} {shipment : Shipment}

theorem isSealed_encode (files : List Container.File) :
    Sealed.isSealed ({} : Settings).sealing (Container.encode files) = false := rfl

/-- A package that is there is read, and offers its files. -/
theorem readPackage_ok (fresh : space.context.settings = {}) (verbatim : Verbatim {} shipments)
    (member : shipment ∈ shipments) (json : Json.Library) (appId : Bytes) {path : Bytes}
    (stands : space.disk.fileAt? path = some shipment.bytes)
    (reads : space.platform.device.fault? path = none) :
    ∃ contents, (space.readPackage appId path).1 = .ok contents ∧
      Plan.offers (Plan.ofEntries json {} path contents.bytes contents.entries) =
        shipment.offers := by
  obtain ⟨entries, parsed, offered⟩ := verbatim.exists_entries member
  have listed {entry : Container.Entry} (present : entry ∈ entries) :
      (⟨entry.path, entry.content shipment.bytes⟩ : Offer) ∈ Shipment.allOffers shipments := by
    apply Shipment.offers_subset member
    rw [← offered]
    exact List.mem_map_of_mem present
  refine ⟨⟨false, shipment.bytes, entries⟩, ?_, ?_⟩
  · rw [readPackage, readFile, Device.read_eq_ok.mpr ⟨stands, reads⟩]
    dsimp only
    rw [openBytes, fresh, Shipment.bytes, if_neg (by rw [isSealed_encode]; decide)]
    dsimp only
    rw [fresh, ← Shipment.bytes, parsed]
  · rw [Plan.offers_ofEntries, offered]
    · intro entry present
      exact verbatim.script _ (listed present)
    · intro entry present
      exact verbatim.config _ (listed present)

end Workspace

end Unbundle
