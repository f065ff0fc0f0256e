import Unbundle.Disk.Change
import Unbundle.Ledger.Library
import Unbundle.Ledger.Plain.Address
import Unbundle.Ledger.Plain.Held
import Unbundle.Ledger.Plain.Location

namespace Unbundle.Ledger

namespace Plain

/-- The file of an open ledger. A frozen one is taken as it is and never changed. -/
structure File where
  place : Place
  access : Access
  system : System
  frozen : Bool
  deriving DecidableEq, Repr

/-- Where an open ledger is kept. One in memory is gone when it is closed. -/
inductive Source where
  | memory (readOnly : Bool)
  | file (file : File)
  deriving DecidableEq, Repr

/-- The longest address that a system without files takes, with room for a journal. -/
def maxMemoryPath : Nat := 1016

namespace Address

/-- Opens the file of a ledger, which is made at once if it is missing and may be made. -/
def openFile (address : Address) (disk : Disk) : Except Trouble Source × Disk :=
  match locate disk address.path with
  | none => (.error .cannotOpen, disk)
  | some place =>
    let system := if address.isOn "nolock" then .careless else address.system
    let source := Source.file
      { place, access := address.access, system, frozen := address.isOn "immutable" }
    let modelMissing := (address.word? "modeof").any fun model => !(disk.status model).isOk
    if modelMissing then (.error .diskError, disk)
    else
      match disk.find? place with
      | some (.file _) => (.ok source, disk)
      | some .directory =>
        (.error (if address.access = .readOnly then .diskError else .cannotOpen), disk)
      | none =>
        match address.access, disk.place? place (.file []) with
        | .create, .ok disk => (.ok source, disk)
        | _, _ => (.error .cannotOpen, disk)

/-- Whether a ledger is kept in memory because of the words of its address. -/
def isUnnamed (address : Address) : Bool :=
  address.access = .memory || address.path = [] || address.path = utf8 ":memory:"

def isInMemory (address : Address) : Bool := address.isUnnamed || address.system = .memory

def openSource (address : Address) (disk : Disk) : Except Trouble Source × Disk :=
  let readOnly : Bool := address.access = .readOnly
  if address.isUnnamed then (.ok (.memory readOnly), disk)
  else if address.system = .memory then
    if maxMemoryPath < address.path.length then (.error .cannotOpen, disk)
    else (.ok (.memory (readOnly || address.isOn "immutable")), disk)
  else address.openFile disk

end Address

/-- Opens the ledger of an address. -/
def openAt (disk : Disk) (address : Bytes) : Except Trouble Source × Disk :=
  match Address.ofText address with
  | .error trouble => (.error trouble, disk)
  | .ok address => address.openSource disk

/-- An open ledger with the places that a change touches: the file, and the journal that is gone
afterwards. -/
structure Session where
  held : Held
  file : Option Place := none
  journal : Option Place := none

/-- How changes are made: over a journal or not, or why they are not. -/
structure Means where
  journal : Option Place
  refusal : Option Trouble
  deriving DecidableEq, Repr

/-- What an unfinished change has left at a place. An empty file says nothing. -/
def remnant? (disk : Disk) (place : Place) : Option Disk.Entry :=
  match disk.find? place with
  | some (.file []) | none => none
  | some entry => some entry

/-- Whether a file can be written at a place of a directory that is there. -/
def hasRoomFor (disk : Disk) (place : Place) : Bool :=
  !disk.isDirectory place && (place.getLastD []).length ≤ Disk.maxNameLength

namespace File

def content (file : File) (disk : Disk) : Bytes := (disk.file? file.place).getD []

def isReadOnly (file : File) : Bool := file.access = .readOnly

/-- Why a lock cannot be had where one has to be. -/
def lockTrouble? (file : File) (disk : Disk) : Option Trouble :=
  let lock := lockOf file.place
  if file.system ≠ .locking then none
  else if (disk.find? lock).isSome then some .locked
  else if hasRoomFor disk lock then none
  else some .diskError

/-- Clears away the journal of an unfinished change. One that starts with a zero byte has been
dealt with, and next to an empty ledger none counts. Behind a lock a journal belongs to the change
under way. -/
def settleJournal (file : File) (disk : Disk) : Option Trouble × Disk :=
  let journal := journalOf file.place
  match remnant? disk journal with
  | none => (none, disk)
  | some entry =>
    if file.system = .locking then (none, disk)
    else if isBlank (file.content disk) then
      (none, if file.isReadOnly then disk else disk.discard journal)
    else
      match entry with
      | .directory => (some .diskError, disk)
      | .file noted =>
        if noted.head? = some 0 then (none, disk)
        else if file.isReadOnly then (some .readOnly, disk)
        else (none, disk.discard journal)

/-- Changes go over a journal where there is no log. -/
def directMeans (file : File) (disk : Disk) : Means where
  journal := some (journalOf file.place)
  refusal := if hasRoomFor disk (journalOf file.place) then none else some .cannotOpen

/-- The length from which a log can say anything. -/
def logHeader : Nat := 32

/-- Takes in the log of an unfinished change, whose index must not be blocked for that. Next to an
empty ledger a log is thrown away. -/
def settleLog (file : File) (disk : Disk) : Except Trouble Means × Disk :=
  let log := logOf file.place
  let index := indexOf file.place
  match remnant? disk log with
  | none => (.ok (file.directMeans disk), disk)
  | some entry =>
    if isBlank (file.content disk) then
      match entry with
      | .directory => (.error .diskError, disk)
      | .file _ => (.ok (file.directMeans disk), disk.discard log)
    else
      match entry, file.system with
      | .directory, _ | _, .locking | _, .careless | _, .memory => (.error .cannotOpen, disk)
      | .file _, .exclusive =>
        (.ok ⟨none, none⟩, if file.isReadOnly then disk else disk.discard log)
      | .file logged, .shared =>
        if disk.isDirectory index then
          (if logged.length < logHeader then .ok ⟨none, some .readOnly⟩ else .error .blockedLog,
            disk)
        else
          (.ok ⟨none, none⟩,
            if file.isReadOnly then disk else (disk.discard log).discard index)

/-- Clears away all that an unfinished change has left. -/
def settle (file : File) (disk : Disk) : Except Trouble Means × Disk :=
  match file.lockTrouble? disk with
  | some trouble => (.error trouble, disk)
  | none =>
    match file.settleJournal disk with
    | (some trouble, disk) => (.error trouble, disk)
    | (none, disk) => file.settleLog disk

/-- Reads a ledger for the first time after it was opened. -/
def read (file : File) (disk : Disk) : Session × Disk :=
  let content := file.content disk
  if file.frozen then ({ held := .ofFile content (some .readOnly) }, disk)
  else
    match file.settle disk with
    | (.error trouble, disk) => ({ held := { state := .error trouble } }, disk)
    | (.ok means, disk) =>
      let refusal := if file.isReadOnly then some .readOnly else means.refusal
      ({ held := .ofFile content refusal, file := some file.place, journal := means.journal }, disk)

end File

def Source.read (source : Source) (disk : Disk) : Session × Disk :=
  match source with
  | .memory readOnly =>
    ({ held := .ofFile [] (if readOnly then some .readOnly else none) }, disk)
  | .file opened => opened.read disk

/-- The disk with the tables that are kept of what is held now, if they have changed. -/
def Session.save (session : Session) (held : Held) (disk : Disk) : Disk :=
  match held.state, session.file with
  | .ok state, some place =>
    if held.written then
      match disk.place? place (.file (encode state.kept)) with
      | .error _ => disk
      | .ok disk => session.journal.elim disk disk.discard
    else disk
  | _, _ => disk

/-- The place of the ledger of an address as far as its text tells, if it is kept in a file. -/
def placeOf? (current : Place) (address : Bytes) : Option Place :=
  match Address.ofText address with
  | .error _ => none
  | .ok address =>
    if address.isInMemory then none
    else some (Disk.reach [] ((if Disk.isAbsolute address.path then [] else current) ++
      Disk.names address.path))

/-- A ledger and the files that may lie beside it. -/
def filesAt (place : Place) : List Place := [place, journalOf place, logOf place, indexOf place]

/-- The places of all files that a ledger of an address may read or change. -/
def placesOf (current : Place) (address : Bytes) : List Place :=
  match placeOf? current address with
  | none => []
  | some place => filesAt place

end Plain

/-- The library that keeps the tables of each ledger in a file of its own layout. What is held of one
is found again from the disk on which it was opened. -/
def Library.plain : Library where
  refuses? disk address :=
    match (Plain.openAt disk address).1 with
    | .error trouble => some trouble.message
    | .ok _ => none
  answer disk address calls call :=
    match Plain.openAt disk address with
    | (.error trouble, _) => some trouble.message
    | (.ok source, disk) => (((source.read disk).1.held.after calls).take call).1
  select disk address calls :=
    match Plain.openAt disk address with
    | (.error _, _) => none
    | (.ok source, disk) =>
      ((source.read disk).1.held.after calls).state.toOption.map State.seen
  close disk address calls :=
    match Plain.openAt disk address with
    | (.error _, disk) => disk
    | (.ok source, disk) =>
      if calls.isEmpty then disk
      else
        let (session, disk) := source.read disk
        session.save (session.held.after calls) disk
  files := Plain.placesOf
  stored? := Plain.stored?

end Unbundle.Ledger
