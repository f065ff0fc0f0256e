import Unbundle.Proofs.Container.Layout
import Mathlib.Data.Nat.Bitwise

/-!
Reading a container with machine words. Every read names its place and fails outside the buffer,
and sums are taken modulo the width of a word. Main statement: no read fails and no sum wraps, so
this reader is the one of the layout.
-/

namespace Unbundle.Container

/-- A computation over a buffer: nothing at all once it reads outside, else a value or a defect. -/
abbrev Guarded := ExceptT Defect Option

namespace Guarded

def byte (bytes : Bytes) (place : UInt64) : Guarded UInt8 := ExceptT.lift bytes[place.toNat]?

/-- The word at a place, most significant byte first. -/
def word (bytes : Bytes) (place : UInt64) : Guarded UInt32 := do
  let a ← byte bytes place
  let b ← byte bytes (place + 1)
  let c ← byte bytes (place + 2)
  let d ← byte bytes (place + 3)
  return a.toUInt32 <<< 24 ||| b.toUInt32 <<< 16 ||| c.toUInt32 <<< 8 ||| d.toUInt32

/-- As many bytes as are asked for, from a place on. -/
def slice (bytes : Bytes) (place : UInt64) (length : UInt32) : Guarded Bytes :=
  ExceptT.lift (if place.toNat + length.toNat ≤ bytes.length then
    some ((bytes.drop place.toNat).take length.toNat) else none)

/-- The record at a place, and the place behind it. -/
def readRecord (bytes : Bytes) (indexEnd dataBase : UInt64) (dataLength : UInt32) (number : Nat)
    (place : UInt64) : Guarded (Entry × UInt64) :=
  if indexEnd < place + 4 then throw (.recordTruncated number)
  else do
    let nameLength ← word bytes place
    if indexEnd < place + 4 + nameLength.toUInt64 + 8 then throw (.recordOverrun number)
    else
      let name ← slice bytes (place + 4) nameLength
      let offset ← word bytes (place + 4 + nameLength.toUInt64)
      let length ← word bytes (place + 4 + nameLength.toUInt64 + 4)
      if dataLength.toUInt64 < offset.toUInt64 + length.toUInt64 then throw (.outsideData name)
      else
        match Path.canonical? name with
        | none => throw (.unsafeName number name)
        | some path =>
          return (⟨path, (dataBase + offset.toUInt64).toNat, length.toNat⟩,
            place + 4 + nameLength.toUInt64 + 8)

def readRecords (bytes : Bytes) (indexEnd dataBase : UInt64) (dataLength : UInt32)
    (left number : Nat) (place : UInt64) : Guarded (List Entry) :=
  match left with
  | 0 => return []
  | left + 1 => do
    let (entry, place) ← readRecord bytes indexEnd dataBase dataLength number place
    let entries ← readRecords bytes indexEnd dataBase dataLength left (number + 1) place
    return entry :: entries

def parse (limit : UInt32) (bytes : Bytes) : Guarded (List Entry) :=
  if bytes.length < 14 then throw (.tooSmall bytes.length)
  else do
    let first ← byte bytes 0
    if first ≠ firstMark then throw .badMagic
    else
      let indexLength ← word bytes 1
      let dataLength ← word bytes 5
      let count ← word bytes 9
      if limit < count then throw (.tooManyEntries count.toNat limit.toNat)
      else if indexLength.toUInt64 < count.toUInt64 * 12 then throw (.indexTooShort count.toNat)
      else
        let indexEnd := 13 + indexLength.toUInt64
        let dataBase := indexEnd + 1
        if bytes.length < (dataBase + dataLength.toUInt64).toNat then throw .sectionsTooLong
        else
          let last ← byte bytes indexEnd
          if last ≠ lastMark then throw .badTerminator
          else readRecords bytes indexEnd dataBase dataLength count.toNat 0 13

variable {bytes : Bytes}

theorem byte_eq {place : UInt64} (inside : place.toNat < bytes.length) :
    byte bytes place = pure (bytes[place.toNat]) := by
  rw [byte, List.getElem?_eq_getElem inside]
  rfl

private theorem slice_eq {place : UInt64} {length : UInt32}
    (inside : place.toNat + length.toNat ≤ bytes.length) :
    slice bytes place length = pure ((bytes.drop place.toNat).take length.toNat) := by
  rw [slice, if_pos inside]
  rfl

theorem toNat_shifted (a b c d : UInt8) :
    (a.toUInt32 <<< 24 ||| b.toUInt32 <<< 16 ||| c.toUInt32 <<< 8 ||| d.toUInt32).toNat =
      Word32.ofBytes a b c d := by
  have first := a.toNat_lt
  have second := b.toNat_lt
  have third := c.toNat_lt
  have fourth := d.toNat_lt
  have shifted (e : UInt8) (distance : UInt32) (small : distance.toNat ≤ 24) :
      (e.toUInt32 <<< distance).toNat = e.toNat <<< distance.toNat := by
    have byte := e.toNat_lt
    rw [UInt32.toNat_shiftLeft, UInt8.toNat_toUInt32, Nat.mod_eq_of_lt (by omega : _ < 32)]
    refine Nat.mod_eq_of_lt ?_
    rw [Nat.shiftLeft_eq]
    calc e.toNat * 2 ^ distance.toNat
      _ < 2 ^ 8 * 2 ^ distance.toNat := Nat.mul_lt_mul_of_pos_right byte (Nat.two_pow_pos _)
      _ ≤ 2 ^ 8 * 2 ^ 24 := Nat.mul_le_mul_left _ (Nat.pow_le_pow_right (by omega) small)
  have joined (high : Nat) {low : Nat} (distance : Nat) (byte : low < 2 ^ 8) :
      high <<< (8 + distance) ||| low <<< distance = (high * 256 + low) <<< distance := by
    rw [Nat.shiftLeft_add, ← Nat.shiftLeft_or_distrib, ← Nat.shiftLeft_add_eq_or_of_lt byte,
      Nat.shiftLeft_eq high 8]
  simp only [UInt32.toNat_or, shifted _ 24 (by decide), shifted _ 16 (by decide),
    shifted _ 8 (by decide), UInt8.toNat_toUInt32, UInt32.reduceToNat, Word32.ofBytes]
  rw [joined a.toNat 16 second, joined _ 8 third]
  exact joined _ 0 fourth

theorem toNat_add {a b : UInt64} (small : a.toNat + b.toNat < UInt64.size) :
    (a + b).toNat = a.toNat + b.toNat := by
  rw [UInt64.toNat_add, Nat.mod_eq_of_lt small]

theorem word_eq {place : UInt64} (inside : place.toNat + 4 ≤ bytes.length)
    (small : place.toNat + 4 < UInt64.size) :
    ∃ value : UInt32, word bytes place = pure value ∧ value.toNat = wordAt bytes place.toNat := by
  have second : (place + 1).toNat = place.toNat + 1 := toNat_add (by simp; omega)
  have third : (place + 2).toNat = place.toNat + 2 := toNat_add (by simp; omega)
  have fourth : (place + 3).toNat = place.toNat + 3 := toNat_add (by simp; omega)
  have available : place.toNat < bytes.length := by omega
  refine ⟨_, ?_, toNat_shifted bytes[place.toNat] bytes[place.toNat + 1] bytes[place.toNat + 2]
    bytes[place.toNat + 3] |>.trans ?_⟩
  · rw [word, byte_eq available, byte_eq (by omega), byte_eq (by omega), byte_eq (by omega)]
    simp only [pure_bind, second, third, fourth]
  · rw [wordAt, List.drop_eq_getElem_cons available, List.drop_eq_getElem_cons (by omega),
      List.drop_eq_getElem_cons (by omega), List.drop_eq_getElem_cons (by omega)]
    rfl

/-- Two readers that make the same check agree if they agree behind it. -/
theorem run_check {α : Type} {refused refused' : Prop} [Decidable refused] [Decidable refused']
    (same : refused ↔ refused') {defect : Defect} {next : Guarded α} {answer : Except Defect α}
    (onward : ¬refused' → next.run = some answer) :
    (if refused then throw defect else next : Guarded α).run =
      some (if refused' then .error defect else answer) := by
  by_cases check : refused'
  · rw [if_pos (same.mpr check), if_pos check]
    rfl
  · rw [if_neg (mt same.mp check), if_neg check]
    exact onward check

theorem record_words {indexEnd place : UInt64} {nameLength : UInt32}
    (inside : indexEnd.toNat ≤ bytes.length) (small : indexEnd.toNat < 2 ^ 33)
    (fits : place.toNat + nameLength.toNat + 12 ≤ indexEnd.toNat) :
    ∃ offset length : UInt32,
      word bytes (place + 4 + nameLength.toUInt64) = pure offset ∧
      word bytes (place + 4 + nameLength.toUInt64 + 4) = pure length ∧
      offset.toNat = wordAt bytes (place.toNat + 4 + nameLength.toNat) ∧
      length.toNat = wordAt bytes (place.toNat + 8 + nameLength.toNat) := by
  have wide : UInt64.size = 2 ^ 64 := rfl
  have name : (place + 4).toNat = place.toNat + 4 := toNat_add (by rw [wide]; simp; omega)
  have past : (place + 4 + nameLength.toUInt64).toNat = place.toNat + 4 + nameLength.toNat := by
    rw [toNat_add (by rw [wide, name, UInt32.toNat_toUInt64]; omega), name, UInt32.toNat_toUInt64]
  have second : (place + 4 + nameLength.toUInt64 + 4).toNat =
      place.toNat + 8 + nameLength.toNat := by
    rw [toNat_add (by rw [wide, past]; simp; omega), past]
    simp only [UInt64.reduceToNat]
    omega
  obtain ⟨offset, readsOffset, offsetEq⟩ :=
    @word_eq bytes (place + 4 + nameLength.toUInt64) (by omega) (by omega)
  obtain ⟨length, readsLength, lengthEq⟩ :=
    @word_eq bytes (place + 4 + nameLength.toUInt64 + 4) (by omega) (by omega)
  exact ⟨offset, length, readsOffset, readsLength, past ▸ offsetEq, second ▸ lengthEq⟩

/-- The record at a place of the index is read without leaving the buffer, and no sum on the way
is too large for a word. -/
theorem readRecord_eq {indexEnd dataBase place : UInt64} {dataLength : UInt32} {header : Header}
    (inside : indexEnd.toNat ≤ bytes.length) (small : indexEnd.toNat < 2 ^ 33)
    (lengths : header.dataLength = dataLength.toNat) (base : header.dataBase = dataBase.toNat)
    (smallBase : dataBase.toNat < 2 ^ 33) (before : place.toNat ≤ indexEnd.toNat) (number : Nat) :
    (readRecord bytes indexEnd dataBase dataLength number place).run =
      some (((Record.read bytes place.toNat).check header indexEnd.toNat number).map
        fun entry => (entry, UInt64.ofNat (Record.read bytes place.toNat).finish)) := by
  have wide : UInt64.size = 2 ^ 64 := rfl
  have start : (Record.read bytes place.toNat).start = place.toNat := rfl
  have name : (place + 4).toNat = place.toNat + 4 := toNat_add (by rw [wide]; simp; omega)
  rw [readRecord, Record.check, apply_ite (Except.map _), apply_ite (Except.map _),
    apply_ite (Except.map _)]
  refine run_check (by rw [UInt64.lt_iff_toNat_lt, name, start]) fun complete => ?_
  obtain ⟨nameLength, readsName, nameLengthEq⟩ := @word_eq bytes place (by omega) (by omega)
  have nameBound := nameLength.toNat_lt
  have finish : (place + 4 + nameLength.toUInt64 + 8).toNat =
      (Record.read bytes place.toNat).finish := by
    have past : (place + 4 + nameLength.toUInt64).toNat = place.toNat + 4 + nameLength.toNat := by
      rw [toNat_add (by rw [wide, name, UInt32.toNat_toUInt64]; omega), name,
        UInt32.toNat_toUInt64]
    rw [toNat_add (by rw [wide, past]; simp; omega), past]
    simp only [Record.finish, Record.read, nameLengthEq, UInt64.reduceToNat]
    omega
  rw [readsName, pure_bind]
  refine run_check (by rw [UInt64.lt_iff_toNat_lt, finish]) fun fits => ?_
  have fits : place.toNat + nameLength.toNat + 12 ≤ indexEnd.toNat := by
    simpa [Record.finish, Record.read, nameLengthEq] using fits
  obtain ⟨offset, length, readsOffset, readsLength, offsetEq, lengthEq⟩ :=
    record_words inside small fits
  have offsetBound := offset.toNat_lt
  have lengthBound := length.toNat_lt
  have record : Record.read bytes place.toNat = ⟨place.toNat, nameLength.toNat,
      (bytes.drop (place.toNat + 4)).take nameLength.toNat, offset.toNat, length.toNat⟩ := by
    rw [Record.read, ← nameLengthEq, offsetEq, lengthEq]
  have stored : (dataBase + offset.toUInt64).toNat = dataBase.toNat + offset.toNat := by
    rw [toNat_add (by rw [wide, UInt32.toNat_toUInt64]; omega), UInt32.toNat_toUInt64]
  have range : (offset.toUInt64 + length.toUInt64).toNat = offset.toNat + length.toNat :=
    toNat_add (by rw [wide, UInt32.toNat_toUInt64, UInt32.toNat_toUInt64]; omega)
  rw [slice_eq (by omega), pure_bind, readsOffset, pure_bind, readsLength, pure_bind, ← finish,
    name, record, lengths, base]
  refine run_check (by rw [UInt64.lt_iff_toNat_lt, UInt32.toNat_toUInt64, range]) fun _ => ?_
  dsimp only
  cases Path.canonical? ((bytes.drop (place.toNat + 4)).take nameLength.toNat) with
  | none => rfl
  | some path =>
    dsimp only
    rw [stored, UInt64.ofNat_toNat]
    rfl

private theorem readRecords_eq {indexEnd dataBase place : UInt64} {dataLength : UInt32}
    {header : Header}
    (inside : indexEnd.toNat ≤ bytes.length) (small : indexEnd.toNat < 2 ^ 33)
    (lengths : header.dataLength = dataLength.toNat) (base : header.dataBase = dataBase.toNat)
    (smallBase : dataBase.toNat < 2 ^ 33) (before : place.toNat ≤ indexEnd.toNat)
    (left number : Nat) :
    (readRecords bytes indexEnd dataBase dataLength left number place).run =
      some (Container.readRecords header left number
        ((bytes.take indexEnd.toNat).drop place.toNat)) := by
  induction left generalizing number place with
  | zero => rfl
  | succ left ih =>
    have step := readRecord_eq inside small lengths base smallBase before number
    rw [readRecords, Container.readRecords, readRecord_index inside, ExceptT.run_bind, step]
    cases checked : (Record.read bytes place.toNat).check header indexEnd.toNat number with
    | error defect => rfl
    | ok entry =>
      obtain ⟨⟨fits, _⟩, _⟩ := Record.check_ok_iff.mp checked
      have finish : (UInt64.ofNat (Record.read bytes place.toNat).finish).toNat =
          (Record.read bytes place.toNat).finish :=
        UInt64.toNat_ofNat_of_lt (lt_of_le_of_lt fits indexEnd.toNat_lt)
      have others := ih (finish.symm ▸ fits) (number + 1)
      rw [finish] at others
      simp only [Except.map, Option.bind_eq_bind, Option.bind_some, ExceptT.run_bind, others]
      cases more : Container.readRecords header left (number + 1)
          ((bytes.take indexEnd.toNat).drop (Record.read bytes place.toNat).finish) <;>
        simp [more, bind, Except.bind]

/-- The reader with machine words never reads outside the buffer and answers as the reader of the
layout does. -/
theorem parse_eq (limit : UInt32) (bytes : Bytes) :
    (parse limit bytes).run = some (Container.parse limit.toNat bytes) := by
  have wide : UInt64.size = 2 ^ 64 := rfl
  rw [parse, Container.parse]
  refine run_check Iff.rfl fun big => ?_
  have header : 14 ≤ bytes.length := Nat.not_lt.mp big
  have zero : (0 : UInt64).toNat = 0 := rfl
  rw [byte_eq (by omega), pure_bind]
  refine run_check ?_ fun _ => ?_
  · simp [zero, List.head?_eq_getElem?, List.getElem?_eq_getElem (show 0 < bytes.length by omega)]
  obtain ⟨indexLength, readsIndex, indexEq⟩ := @word_eq bytes 1 (by simp; omega) (by decide)
  obtain ⟨dataLength, readsData, dataEq⟩ := @word_eq bytes 5 (by simp; omega) (by decide)
  obtain ⟨count, readsCount, countEq⟩ := @word_eq bytes 9 (by simp; omega) (by decide)
  have header : Header.read bytes = ⟨indexLength.toNat, dataLength.toNat, count.toNat⟩ := by
    rw [indexEq, dataEq, countEq]
    rfl
  have indexBound := indexLength.toNat_lt
  have dataBound := dataLength.toNat_lt
  have countBound := count.toNat_lt
  have twelve : (count.toUInt64 * 12).toNat = shortestRecord * count.toNat := by
    simp [shortestRecord, UInt64.toNat_mul]
    omega
  have indexEnd : (13 + indexLength.toUInt64).toNat = headerLength + indexLength.toNat :=
    toNat_add (by rw [wide, UInt32.toNat_toUInt64]; simp; omega)
  have dataBase : (13 + indexLength.toUInt64 + 1).toNat = headerLength + indexLength.toNat + 1 := by
    rw [toNat_add (by rw [wide, indexEnd]; simp [headerLength]; omega), indexEnd]
    rfl
  have finish : (13 + indexLength.toUInt64 + 1 + dataLength.toUInt64).toNat =
      headerLength + indexLength.toNat + 1 + dataLength.toNat := by
    rw [toNat_add (by rw [wide, dataBase, UInt32.toNat_toUInt64]; simp [headerLength]; omega),
      dataBase, UInt32.toNat_toUInt64]
  simp only [readsIndex, readsData, readsCount, pure_bind, header]
  refine run_check Iff.rfl fun _ => ?_
  refine run_check (by rw [UInt64.lt_iff_toNat_lt, twelve, UInt32.toNat_toUInt64]) fun _ => ?_
  refine run_check (by rw [finish, Header.dataBase]) fun complete => ?_
  have inside : headerLength + indexLength.toNat < bytes.length := by
    simp only [Header.dataBase] at complete
    omega
  rw [byte_eq (by omega), pure_bind]
  refine run_check ?_ fun _ => ?_
  · rw [List.getElem?_eq_getElem inside]
    simp only [indexEnd, ne_eq, Option.some.injEq]
  have loop := @readRecords_eq bytes (13 + indexLength.toUInt64) (13 + indexLength.toUInt64 + 1) 13
    dataLength (Header.read bytes) (by omega) (by rw [indexEnd, headerLength]; omega) (by rw [header])
    (by rw [header, dataBase]; rfl) (by rw [dataBase, headerLength]; omega)
    (by rw [indexEnd]; simp [headerLength]) count.toNat 0
  have index : (bytes.take (headerLength + indexLength.toNat)).drop (13 : UInt64).toNat =
      (bytes.drop headerLength).take indexLength.toNat := by
    rw [List.drop_take]
    simp [headerLength]
  rw [loop, indexEnd, index, header]

end Guarded

/-- Reading never leaves the buffer and fails with a defect only. It accepts exactly the documented
layout, its entries are the records in order, each one's range lies in the data section, and nothing
behind the last mark is looked at. -/
theorem parse_exact (limit : UInt32) (bytes : Bytes) :
    (Guarded.parse limit bytes).run = some (parse limit.toNat bytes) ∧
      ((∃ entries, parse limit.toNat bytes = .ok entries) ↔ Layout limit.toNat bytes) ∧
      (∀ entries, parse limit.toNat bytes = .ok entries →
        entries.length = wordAt bytes 9 ∧
          (records bytes).map (Record.located? (14 + wordAt bytes 1)) = entries.map some ∧
          ∀ entry ∈ entries, 14 + wordAt bytes 1 ≤ entry.offset ∧
            entry.offset ≤ entry.offset + entry.length ∧
            entry.offset + entry.length ≤ 14 + wordAt bytes 1 + wordAt bytes 5 ∧
            14 + wordAt bytes 1 + wordAt bytes 5 ≤ bytes.length ∧
            (entry.content bytes).length = entry.length) ∧
      ∀ other, 14 + wordAt bytes 1 + wordAt bytes 5 ≤ bytes.length →
        14 + wordAt bytes 1 + wordAt bytes 5 ≤ other.length →
        other.take (14 + wordAt bytes 1) = bytes.take (14 + wordAt bytes 1) →
        parse limit.toNat other = parse limit.toNat bytes := by
  refine ⟨Guarded.parse_eq limit bytes, ?_, ?_, fun other => parse_congr limit.toNat⟩
  · constructor
    · rintro ⟨entries, accepted⟩
      exact ((parse_ok_iff ..).mp accepted).1
    · intro layout
      obtain ⟨entries, located⟩ := layout.exists_entries (14 + wordAt bytes 1)
      exact ⟨entries, (parse_ok_iff ..).mpr ⟨layout, located⟩⟩
  · intro entries accepted
    obtain ⟨layout, located⟩ := (parse_ok_iff ..).mp accepted
    have number : entries.length = wordAt bytes 9 := by
      have lengths := congrArg List.length located
      rw [List.length_map, List.length_map, records, length_recordsFrom] at lengths
      exact lengths.symm
    refine ⟨number, located, ?_⟩
    intro entry member
    obtain ⟨behind, upto, length⟩ := layout.range located member
    exact ⟨behind, Nat.le_add_right .., upto, layout.sections, length⟩

end Unbundle.Container
