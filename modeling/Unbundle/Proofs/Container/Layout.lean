import Unbundle.Container.Parser
import Unbundle.Proofs.Answer

/-!
The layout of a container, place by place, and the reader measured against it. Main statement: the
reader accepts exactly the byte strings that are laid out, and answers with their records.
-/

namespace Unbundle.Container

/-- What the index says from a place on: the length of a name, the name, and the range of a file
inside the data section. -/
structure Record where
  start : Nat
  nameLength : Nat
  name : Bytes
  offset : Nat
  length : Nat
  deriving DecidableEq, Repr

namespace Record

/-- The place behind the record. -/
def finish (record : Record) : Nat := record.start + record.nameLength + 12

def read (bytes : Bytes) (start : Nat) : Record where
  start := start
  nameLength := wordAt bytes start
  name := (bytes.drop (start + 4)).take (wordAt bytes start)
  offset := wordAt bytes (start + 4 + wordAt bytes start)
  length := wordAt bytes (start + 8 + wordAt bytes start)

/-- The record fits the index, its range the data section, and its name is a safe one. -/
def Fits (indexEnd dataLength : Nat) (record : Record) : Prop :=
  record.finish ≤ indexEnd ∧ record.offset + record.length ≤ dataLength ∧
    Path.canonical? record.name ≠ none

instance (indexEnd dataLength : Nat) (record : Record) :
    Decidable (record.Fits indexEnd dataLength) := inferInstanceAs (Decidable (_ ∧ _ ∧ _))

end Record

/-- Consecutive records, as many as are asked for. -/
def recordsFrom (bytes : Bytes) (start : Nat) : Nat → List Record
  | 0 => []
  | count + 1 =>
    let record := Record.read bytes start
    record :: recordsFrom bytes record.finish count

/-- The records of a container, as many as its header says. -/
def records (bytes : Bytes) : List Record := recordsFrom bytes 13 (wordAt bytes 9)

/-- The documented layout: the header with the first mark and three words, the index, the last
mark and the data section. -/
structure Layout (limit : Nat) (bytes : Bytes) : Prop where
  header : 14 ≤ bytes.length
  firstMark : bytes[0]? = some 0xBE
  count : wordAt bytes 9 ≤ limit
  index : 12 * wordAt bytes 9 ≤ wordAt bytes 1
  sections : 14 + wordAt bytes 1 + wordAt bytes 5 ≤ bytes.length
  lastMark : bytes[13 + wordAt bytes 1]? = some 0xED
  fits : ∀ record ∈ records bytes, record.Fits (13 + wordAt bytes 1) (wordAt bytes 5)

theorem length_recordsFrom (bytes : Bytes) (start count : Nat) :
    (recordsFrom bytes start count).length = count := by
  induction count generalizing start with
  | zero => rfl
  | succ count ih => rw [recordsFrom, List.length_cons, ih]

/-- A word inside the index is the same word of the container. -/
theorem wordAt_index {bytes : Bytes} {indexEnd start place : Nat}
    (inside : start + place + 4 ≤ indexEnd) :
    wordAt ((bytes.take indexEnd).drop start) place = wordAt bytes (start + place) := by
  have available : 4 ≤ indexEnd - (start + place) := by omega
  rw [wordAt, wordAt, List.drop_drop, List.drop_take]
  congr 1
  obtain ⟨rest, more⟩ : ∃ rest, indexEnd - (start + place) = rest + 4 :=
    ⟨_, (Nat.sub_add_cancel available).symm⟩
  rw [more]
  rcases bytes.drop (start + place) with _ | ⟨a, _ | ⟨b, _ | ⟨c, _ | ⟨d, tail⟩⟩⟩⟩ <;> rfl

namespace Record

/-- The checks that a record goes through, in reading order. -/
def check (header : Header) (indexEnd number : Nat) (record : Record) : Except Defect Entry :=
  if indexEnd < record.start + 4 then .error (.recordTruncated number)
  else if indexEnd < record.finish then .error (.recordOverrun number)
  else if header.dataLength < record.offset + record.length then .error (.outsideData record.name)
  else
    match Path.canonical? record.name with
    | none => .error (.unsafeName number record.name)
    | some path => .ok ⟨path, header.dataBase + record.offset, record.length⟩

/-- The entry of a record with a safe name. -/
def located? (dataBase : Nat) (record : Record) : Option Entry :=
  (Path.canonical? record.name).map fun path => ⟨path, dataBase + record.offset, record.length⟩

theorem check_ok_iff {header : Header} {indexEnd number : Nat} {record : Record} {entry : Entry} :
    record.check header indexEnd number = .ok entry ↔
      record.Fits indexEnd header.dataLength ∧ record.located? header.dataBase = some entry := by
  have past : record.start + 4 ≤ record.finish := by
    rw [finish]
    omega
  rw [check, Fits, located?]
  by_cases truncated : indexEnd < record.start + 4
  · have overrun : ¬record.finish ≤ indexEnd := by omega
    simp [truncated, overrun]
  by_cases overrun : indexEnd < record.finish
  · simp [truncated, overrun, Nat.not_le.mpr overrun]
  by_cases outside : header.dataLength < record.offset + record.length
  · simp [truncated, overrun, outside, Nat.not_le.mpr outside]
  cases found : Path.canonical? record.name with
  | none => simp [truncated, overrun, outside]
  | some path =>
    simp [truncated, overrun, outside, Nat.not_lt.mp overrun, Nat.not_lt.mp outside]

end Record

/-- Reading at a place of the index is checking the record there. -/
theorem readRecord_index {bytes : Bytes} {indexEnd : Nat} (inside : indexEnd ≤ bytes.length)
    (header : Header) (number start : Nat) :
    readRecord header number ((bytes.take indexEnd).drop start) =
      ((Record.read bytes start).check header indexEnd number).map fun entry =>
        (entry, (bytes.take indexEnd).drop (Record.read bytes start).finish) := by
  have indexLength (place : Nat) : ((bytes.take indexEnd).drop place).length = indexEnd - place := by
    rw [List.length_drop, List.length_take, Nat.min_eq_left inside]
  have place : (Record.read bytes start).start = start := rfl
  simp only [readRecord, List.drop_drop, indexLength]
  rw [Record.check, place]
  by_cases truncated : indexEnd < start + 4
  · rw [if_pos (by omega), if_pos truncated]
    rfl
  have first : wordAt ((bytes.take indexEnd).drop start) 0 = wordAt bytes start :=
    wordAt_index (by omega)
  rw [if_neg (by omega), if_neg truncated, first]
  by_cases overrun : indexEnd < (Record.read bytes start).finish
  · rw [if_pos overrun, if_pos]
    · rfl
    · simp only [Record.finish, Record.read] at overrun
      omega
  rw [if_neg overrun]
  simp only [Record.finish, Record.read] at overrun
  have name : ((bytes.take indexEnd).drop (start + 4)).take (wordAt bytes start) =
      (Record.read bytes start).name := by
    rw [Record.read, List.drop_take, List.take_take, Nat.min_eq_left (by omega)]
  have offset : wordAt ((bytes.take indexEnd).drop (start + 4)) (wordAt bytes start) =
      (Record.read bytes start).offset :=
    wordAt_index (by omega)
  have length : wordAt ((bytes.take indexEnd).drop (start + 4)) (wordAt bytes start + 4) =
      (Record.read bytes start).length := by
    rw [wordAt_index (by omega), Record.read]
    congr 1
    omega
  have behind : start + 4 + (wordAt bytes start + 8) = (Record.read bytes start).finish := by
    simp only [Record.finish, Record.read]
    omega
  rw [if_neg (by omega), name, offset, length, behind]
  generalize Record.read bytes start = record
  by_cases outside : header.dataLength < record.offset + record.length
  · rw [if_pos outside, if_pos outside]
    rfl
  rw [if_neg outside, if_neg outside]
  cases Path.canonical? record.name <;> rfl

theorem readRecords_ok_iff {bytes : Bytes} {indexEnd : Nat} (inside : indexEnd ≤ bytes.length)
    (header : Header) (left number start : Nat) (entries : List Entry) :
    readRecords header left number ((bytes.take indexEnd).drop start) = .ok entries ↔
      (∀ record ∈ recordsFrom bytes start left, record.Fits indexEnd header.dataLength) ∧
        (recordsFrom bytes start left).map (Record.located? header.dataBase) = entries.map some := by
  induction left generalizing number start entries with
  | zero => cases entries <;> simp [readRecords, recordsFrom]
  | succ left ih =>
    simp only [readRecords, recordsFrom, List.forall_mem_cons, List.map_cons,
      readRecord_index inside]
    generalize Record.read bytes start = record
    constructor
    · intro accepted
      obtain ⟨⟨entry, rest⟩, first, accepted⟩ := bind_eq_ok.mp accepted
      obtain ⟨more, others, same⟩ := bind_eq_ok.mp accepted
      obtain ⟨found, checked, pair⟩ := map_eq_ok.mp first
      cases pair
      cases same
      obtain ⟨fits, located⟩ := Record.check_ok_iff.mp checked
      obtain ⟨othersFit, othersFound⟩ := (ih ..).mp others
      exact ⟨⟨fits, othersFit⟩, by rw [located, othersFound, List.map_cons]⟩
    · rintro ⟨⟨fits, othersFit⟩, found⟩
      cases entries with
      | nil => simp at found
      | cons entry more =>
        obtain ⟨located, othersFound⟩ := List.cons.inj found
        have checked : record.check header indexEnd number = .ok entry :=
          Record.check_ok_iff.mpr ⟨fits, located⟩
        have others := (ih (number + 1) record.finish more).mpr ⟨othersFit, othersFound⟩
        rw [checked]
        exact bind_eq_ok.mpr ⟨_, rfl, bind_eq_ok.mpr ⟨more, others, rfl⟩⟩

/-- A container is accepted exactly when it is laid out, and then its entries are those of its
records, in their order. -/
theorem parse_ok_iff (limit : Nat) (bytes : Bytes) (entries : List Entry) :
    parse limit bytes = .ok entries ↔ Layout limit bytes ∧
      (records bytes).map (Record.located? (14 + wordAt bytes 1)) = entries.map some := by
  have base : (Header.read bytes).dataBase = 14 + wordAt bytes 1 := by
    simp only [Header.dataBase, Header.read, headerLength]
    omega
  have index : (bytes.drop headerLength).take (wordAt bytes 1) =
      (bytes.take (13 + wordAt bytes 1)).drop 13 := by
    rw [List.drop_take, headerLength, Nat.add_sub_cancel_left]
  have loop (inside : 14 + wordAt bytes 1 + wordAt bytes 5 ≤ bytes.length) :=
    readRecords_ok_iff (show 13 + wordAt bytes 1 ≤ bytes.length by omega) (Header.read bytes)
      (wordAt bytes 9) 0 13 entries
  simp only [parse, check_eq_ok, List.head?_eq_getElem?, Nat.not_lt, ne_eq,
    Decidable.not_not, base]
  simp only [Header.read, index]
  constructor
  · rintro ⟨header, firstMark, count, length, sections, lastMark, accepted⟩
    obtain ⟨fits, found⟩ := (loop sections).mp accepted
    rw [base] at found
    exact ⟨⟨header, firstMark, count, length, sections, lastMark, fits⟩, found⟩
  · rintro ⟨layout, found⟩
    rw [← base] at found
    exact ⟨layout.header, layout.firstMark, layout.count, layout.index, layout.sections,
      layout.lastMark, (loop layout.sections).mpr ⟨layout.fits, found⟩⟩

/-- The range of every entry lies in the data section, and so inside the container. -/
theorem Layout.range {limit : Nat} {bytes : Bytes} (layout : Layout limit bytes)
    {entries : List Entry}
    (located : (records bytes).map (Record.located? (14 + wordAt bytes 1)) = entries.map some)
    {entry : Entry} (member : entry ∈ entries) :
    14 + wordAt bytes 1 ≤ entry.offset ∧
      entry.offset + entry.length ≤ 14 + wordAt bytes 1 + wordAt bytes 5 ∧
      (entry.content bytes).length = entry.length := by
  have image : some entry ∈ (records bytes).map (Record.located? (14 + wordAt bytes 1)) := by
    rw [located]
    exact List.mem_map_of_mem member
  obtain ⟨record, recorded, found⟩ := List.mem_map.mp image
  obtain ⟨_, inside, _⟩ := layout.fits record recorded
  obtain ⟨path, _, rfl⟩ := Option.map_eq_some_iff.mp found
  have sections := layout.sections
  dsimp only [Entry.content]
  rw [List.length_take, List.length_drop]
  omega

theorem Layout.exists_entries {limit : Nat} {bytes : Bytes} (layout : Layout limit bytes)
    (dataBase : Nat) :
    ∃ entries : List Entry,
      (records bytes).map (Record.located? dataBase) = entries.map some := by
  have fits := layout.fits
  generalize records bytes = records at fits
  induction records with
  | nil => exact ⟨[], rfl⟩
  | cons record records ih =>
    obtain ⟨⟨_, _, named⟩, others⟩ := List.forall_mem_cons.mp fits
    obtain ⟨path, found⟩ := Option.ne_none_iff_exists'.mp named
    obtain ⟨entries, same⟩ := ih others
    refine ⟨⟨path, dataBase + record.offset, record.length⟩ :: entries, ?_⟩
    rw [List.map_cons, same, Record.located?, found]
    rfl

/-- Reading looks at nothing behind the last mark, so two byte strings that agree up to it and
are long enough for the data section are read alike. -/
theorem parse_congr (limit : Nat) {bytes other : Bytes}
    (sections : 14 + wordAt bytes 1 + wordAt bytes 5 ≤ bytes.length)
    (enough : 14 + wordAt bytes 1 + wordAt bytes 5 ≤ other.length)
    (agree : other.take (14 + wordAt bytes 1) = bytes.take (14 + wordAt bytes 1)) :
    parse limit other = parse limit bytes := by
  have word {place : Nat} (inside : place + 4 ≤ 14 + wordAt bytes 1) :
      wordAt other place = wordAt bytes place := by
    have here (text : Bytes) : wordAt (text.take (14 + wordAt bytes 1)) place = wordAt text place := by
      have reads := @wordAt_index text (14 + wordAt bytes 1) 0 place (by omega)
      rwa [List.drop_zero, Nat.zero_add] at reads
    rw [← here, agree, here]
  have byte {place : Nat} (inside : place < 14 + wordAt bytes 1) : other[place]? = bytes[place]? := by
    rw [← List.getElem?_take_of_lt inside, agree, List.getElem?_take_of_lt inside]
  have header : Header.read other = Header.read bytes := by
    simp only [Header.read]
    rw [word (by omega), word (by omega), word (by omega)]
  have index (text : Bytes) : (text.drop headerLength).take (wordAt bytes 1) =
      ((text.take (14 + wordAt bytes 1)).drop 13).take (wordAt bytes 1) := by
    rw [List.drop_take, List.take_take, headerLength, Nat.min_eq_left (by omega)]
  have long {text : Bytes} (enough : 14 + wordAt bytes 1 + wordAt bytes 5 ≤ text.length) :
      ¬text.length < headerLength + 1 ∧
        ¬text.length < (Header.read bytes).dataBase + (Header.read bytes).dataLength := by
    simp only [Header.dataBase, Header.read, headerLength]
    omega
  obtain ⟨big, complete⟩ := long sections
  obtain ⟨otherBig, otherComplete⟩ := long enough
  simp only [parse, header, List.head?_eq_getElem?]
  rw [if_neg big, if_neg otherBig, if_neg complete, if_neg otherComplete, byte (by omega),
    byte (by simp only [headerLength, Header.read]; omega),
    show (Header.read bytes).indexLength = wordAt bytes 1 from rfl, index other, agree, ← index]

end Unbundle.Container
