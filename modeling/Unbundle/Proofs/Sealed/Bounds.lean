import Unbundle.Proofs.Sealed.Opening
import Mathlib.Data.List.Basic

/-!
Opening a sealed package with machine words. A range of the buffer is read from one place to another
and fails outside the buffer, the length of tag and salt is taken modulo the width of a word, and the
cipher counts the head in signed words. Main statement: where no word wraps, all reads lie inside and
the answers are those of unbounded numbers; where one does, they are not.
-/

namespace Unbundle.Sealed

/-- A computation over a buffer: nothing at all once it reads outside, else a value or a defect. -/
abbrev Guarded := ExceptT Defect Option

/-- The length of tag and salt together, as a number without bound. -/
def Settings.fullLength (settings : Settings) : Nat :=
  settings.versionTag.length + settings.saltLength.toNat

/-- Where the body begins, as a machine word. -/
def Settings.bodyStart (settings : Settings) : UInt64 :=
  settings.versionTag.length.toUInt64 + settings.saltLength

namespace Guarded

/-- The bytes from one place up to another. -/
def range (bytes : Bytes) (start stop : UInt64) : Guarded Bytes :=
  ExceptT.lift (if start ≤ stop ∧ stop.toNat ≤ bytes.length then
    some ((bytes.drop start.toNat).take (stop.toNat - start.toNat)) else none)

def readSalt (settings : Settings) (bytes : Bytes) : Guarded Bytes :=
  if bytes.length < settings.bodyStart.toNat then throw .noSalt
  else range bytes settings.versionTag.length.toUInt64 settings.bodyStart

/-- How many bytes of the body are the head. -/
def headLength (settings : Settings) (bytes : Bytes) : UInt64 :=
  min settings.headLength (bytes.length.toUInt64 - settings.bodyStart)

/-- The head that is handed to the cipher. -/
def head (settings : Settings) (bytes : Bytes) : Guarded Bytes :=
  if isSealed settings bytes = false then throw (.missingTag settings.versionTag)
  else if bytes.length ≤ settings.bodyStart.toNat then throw .noBody
  else if headLength settings bytes % 16 ≠ 0 then
    throw (.unaligned (headLength settings bytes).toNat)
  else range bytes settings.bodyStart (settings.bodyStart + headLength settings bytes)

/-- The cipher reads as many bytes as it is told to. A negative number leads it outside. -/
def openHead (settings : Settings) (key head : Bytes) : Guarded Bytes :=
  ExceptT.mk
    (if key.length = Cipher.Aes.keyLength ∧ 0x80000000 ≤ head.length % 0x100000000 then none
    else some (Sealed.openHead settings key head))

def openWith (settings : Settings) (key : Bytes) (mask : UInt8) (bytes : Bytes) :
    Guarded Bytes := do
  let head ← head settings bytes
  let clear ← openHead settings key head
  let tail ← range bytes (settings.bodyStart + headLength settings bytes) bytes.length.toUInt64
  let text := clear ++ Bytes.mask mask tail
  if text.head? = some Container.firstMark then return text else throw .notContainer

end Guarded

variable {settings : Settings} {bytes : Bytes}

private theorem toNat_bodyStart (settings : Settings) :
    settings.bodyStart.toNat = settings.prefixLength := rfl

private theorem prefixLength_mod (settings : Settings) :
    settings.prefixLength = settings.fullLength % UInt64.size := by
  simp only [Settings.prefixLength, Settings.fullLength, UInt64.toNat_add, Nat.toUInt64,
    UInt64.toNat_ofNat', UInt64.size]
  omega

namespace Guarded

private theorem range_eq {start stop : UInt64} (ordered : start.toNat ≤ stop.toNat)
    (inside : stop.toNat ≤ bytes.length) :
    range bytes start stop =
      pure ((bytes.drop start.toNat).take (stop.toNat - start.toNat)) := by
  rw [range, if_pos ⟨UInt64.le_iff_toNat_le.mpr ordered, inside⟩]
  rfl

private theorem toNat_length (fits : bytes.length < UInt64.size) :
    bytes.length.toUInt64.toNat = bytes.length := by
  rw [Nat.toUInt64, UInt64.toNat_ofNat', Nat.mod_eq_of_lt fits]

private theorem toNat_min (a b : UInt64) : (min a b).toNat = min a.toNat b.toNat := by
  have least : min a b = if a ≤ b then a else b := rfl
  rw [least, Nat.min_def]
  simp only [UInt64.le_iff_toNat_le]
  split <;> rfl

theorem toNat_headLength (fits : bytes.length < UInt64.size)
    (more : settings.prefixLength < bytes.length) :
    (headLength settings bytes).toNat =
      min settings.headLength.toNat (bytes.length - settings.prefixLength) := by
  have start : settings.bodyStart ≤ bytes.length.toUInt64 := by
    rw [UInt64.le_iff_toNat_le, toNat_length fits]
    exact Nat.le_of_lt more
  rw [headLength, toNat_min, UInt64.toNat_sub_of_le _ _ start, toNat_length fits,
    toNat_bodyStart]

theorem toNat_headEnd (fits : bytes.length < UInt64.size)
    (more : settings.prefixLength < bytes.length) :
    (settings.bodyStart + headLength settings bytes).toNat =
      settings.prefixLength +
        min settings.headLength.toNat (bytes.length - settings.prefixLength) := by
  have sum := toNat_headLength fits more
  rw [UInt64.toNat_add, sum, toNat_bodyStart]
  refine Nat.mod_eq_of_lt ?_
  have bound := Nat.min_le_right settings.headLength.toNat (bytes.length - settings.prefixLength)
  simp only [UInt64.size] at fits
  omega

/-- The head lies inside the buffer wherever the body begins. -/
theorem head_eq (fits : bytes.length < UInt64.size) :
    head settings bytes =
      if isSealed settings bytes = false then throw (.missingTag settings.versionTag)
      else if bytes.length ≤ settings.prefixLength then throw .noBody
      else
        let head := (bytes.drop settings.prefixLength).take settings.headLength.toNat
        if head.length % Cipher.Cbc.blockLength ≠ 0 then throw (.unaligned head.length)
        else pure head := by
  rw [head, toNat_bodyStart]
  by_cases untagged : isSealed settings bytes = false
  · rw [if_pos untagged, if_pos untagged]
  rw [if_neg untagged, if_neg untagged]
  by_cases short : bytes.length ≤ settings.prefixLength
  · rw [if_pos short, if_pos short]
  have more : settings.prefixLength < bytes.length := by omega
  have length := toNat_headLength fits more
  have aligned : headLength settings bytes % 16 ≠ 0 ↔
      (headLength settings bytes).toNat % Cipher.Cbc.blockLength ≠ 0 := by
    rw [ne_eq, ← UInt64.toNat_inj, UInt64.toNat_mod]
    rfl
  have stop := toNat_headEnd fits more
  rw [if_neg short, if_neg short]
  dsimp only
  rw [List.length_take, List.length_drop, ← length]
  simp only [aligned]
  by_cases whole : (headLength settings bytes).toNat % Cipher.Cbc.blockLength ≠ 0
  · rw [if_pos whole, if_pos whole]
  rw [if_neg whole, if_neg whole, range_eq (by rw [stop, toNat_bodyStart]; omega) (by omega), stop,
    toNat_bodyStart, Nat.add_sub_cancel_left]
  congr 1
  rw [List.take_eq_take_iff, List.length_drop]
  omega

theorem length_of_head {part : Bytes} (fits : bytes.length < UInt64.size)
    (asked : head settings bytes = pure part) :
    part.length = min settings.headLength.toNat (bytes.length - settings.prefixLength) := by
  rw [head_eq fits] at asked
  by_cases untagged : isSealed settings bytes = false
  · rw [if_pos untagged] at asked
    cases asked
  rw [if_neg untagged] at asked
  by_cases short : bytes.length ≤ settings.prefixLength
  · rw [if_pos short] at asked
    cases asked
  rw [if_neg short] at asked
  dsimp only at asked
  by_cases whole :
      ((bytes.drop settings.prefixLength).take settings.headLength.toNat).length %
        Cipher.Cbc.blockLength ≠ 0
  · rw [if_pos whole] at asked
    cases asked
  · rw [if_neg whole] at asked
    cases asked
    rw [List.length_take, List.length_drop]

theorem range_tail (fits : bytes.length < UInt64.size)
    (more : settings.prefixLength < bytes.length) :
    range bytes (settings.bodyStart + headLength settings bytes) bytes.length.toUInt64 =
      pure ((bytes.drop settings.prefixLength).drop settings.headLength.toNat) := by
  have stop := toNat_headEnd fits more
  have last := toNat_length fits
  rw [range_eq (by omega) (by omega), stop, last, List.drop_drop,
    List.take_of_length_le (Nat.le_of_eq List.length_drop)]
  congr 1
  rw [List.drop_eq_drop_iff]
  omega

/-- Opening a package whose head the cipher can count never reads outside the buffer, and reads what
the package has there. -/
theorem openWith_eq (fits : bytes.length < UInt64.size)
    (counted : ∀ part, head settings bytes = pure part → part.length % 0x100000000 < 0x80000000)
    (key : Bytes) (mask : UInt8) :
    openWith settings key mask bytes =
      ExceptT.mk (some (Sealed.openWith settings key mask bytes)) := by
  rw [openWith, Sealed.openWith]
  rw [head_eq fits] at counted ⊢
  by_cases untagged : isSealed settings bytes = false
  · rw [if_pos untagged, if_pos untagged]
    rfl
  rw [if_neg untagged] at counted ⊢
  rw [if_neg untagged]
  by_cases short : bytes.length ≤ settings.prefixLength
  · rw [if_pos short, if_pos short]
    rfl
  rw [if_neg short] at counted ⊢
  rw [if_neg short]
  dsimp only at counted ⊢
  generalize inside : (bytes.drop settings.prefixLength).take settings.headLength.toNat = head
    at counted ⊢
  by_cases whole : head.length % Cipher.Cbc.blockLength ≠ 0
  · rw [if_pos whole, Sealed.openHead, if_pos whole]
    rfl
  rw [if_neg whole] at counted
  have small : ¬(key.length = Cipher.Aes.keyLength ∧ 0x80000000 ≤ head.length % 0x100000000) :=
    fun large => Nat.not_lt.mpr large.2 (counted head rfl)
  rw [if_neg whole, pure_bind, openHead, if_neg small]
  cases Sealed.openHead settings key head with
  | error defect => rfl
  | ok clear =>
    change (range _ _ _ >>= _) = _
    rw [range_tail fits (by omega), pure_bind]
    dsimp only
    split <;> rfl

theorem openWith_uncounted {part key : Bytes} (asked : head settings bytes = pure part)
    (large : 0x80000000 ≤ part.length % 0x100000000) (long : key.length = Cipher.Aes.keyLength)
    (mask : UInt8) : openWith settings key mask bytes = ExceptT.mk none := by
  rw [openWith, asked, pure_bind, openHead, if_pos ⟨long, large⟩]
  rfl

end Guarded

variable {salt : Bytes} {defect : Defect}

private theorem prefixLength_of_lt (fits : settings.fullLength < UInt64.size) :
    settings.prefixLength = settings.fullLength := by
  rw [prefixLength_mod, Nat.mod_eq_of_lt fits]

private theorem prefixLength_ne (wraps : UInt64.size ≤ settings.fullLength) :
    settings.prefixLength ≠ settings.fullLength := by
  have bound := Nat.mod_lt settings.fullLength (by decide : 0 < UInt64.size)
  rw [prefixLength_mod]
  omega

/-- All that can come of reading the salt. -/
inductive SaltRead (settings : Settings) (bytes : Bytes) : Except Defect Bytes → Prop
  | short (short : bytes.length < settings.prefixLength) :
      SaltRead settings bytes (.error .noSalt)
  | wrapped (wraps : UInt64.size ≤ settings.fullLength)
      (long : settings.prefixLength ≤ bytes.length) : SaltRead settings bytes (.error .saltTooLong)
  | found (fits : settings.fullLength < UInt64.size) {front salt behind : Bytes}
      (whole : bytes = front ++ salt ++ behind)
      (before : front.length = settings.versionTag.length)
      (exact : salt.length = settings.saltLength.toNat) : SaltRead settings bytes (.ok salt)

private theorem saltRead (settings : Settings) (bytes : Bytes) :
    SaltRead settings bytes (readSalt settings bytes) := by
  rw [readSalt]
  by_cases short : bytes.length < settings.prefixLength
  · rw [if_pos short]
    exact .short short
  rw [if_neg short]
  by_cases fits : settings.fullLength < UInt64.size
  · have length := prefixLength_of_lt fits
    rw [if_neg (· length)]
    rw [length, Settings.fullLength] at short
    have cut : bytes = bytes.take settings.versionTag.length ++
        (bytes.drop settings.versionTag.length).take settings.saltLength.toNat ++
        (bytes.drop settings.versionTag.length).drop settings.saltLength.toNat := by
      rw [List.append_assoc, List.take_append_drop, List.take_append_drop]
    refine .found fits cut ?_ ?_
    · rw [List.length_take]
      omega
    · rw [List.length_take, List.length_drop]
      omega
  · have wraps : UInt64.size ≤ settings.fullLength := by omega
    have different : settings.prefixLength ≠
        settings.versionTag.length + settings.saltLength.toNat := prefixLength_ne wraps
    rw [if_pos different]
    exact .wrapped wraps (by omega)

theorem Guarded.readSalt_eq {front salt behind : Bytes}
    (fits : settings.fullLength < UInt64.size) (whole : bytes = front ++ salt ++ behind)
    (before : front.length = settings.versionTag.length)
    (exact : salt.length = settings.saltLength.toNat) :
    Guarded.readSalt settings bytes = pure salt := by
  have stop : settings.bodyStart.toNat = settings.fullLength := prefixLength_of_lt fits
  have full : settings.fullLength = front.length + salt.length := by
    rw [before, exact]
    rfl
  have start : settings.versionTag.length.toUInt64.toNat = front.length := by
    rw [Nat.toUInt64, UInt64.toNat_ofNat', ← before, Nat.mod_eq_of_lt]
    simp only [UInt64.size] at fits
    omega
  have long : settings.fullLength ≤ bytes.length := by
    rw [whole, full, List.length_append, List.length_append]
    omega
  rw [Guarded.readSalt, if_neg (by omega), Guarded.range_eq (by omega) (by omega), start, stop,
    full, Nat.add_sub_cancel_left, whole, List.append_assoc, List.drop_left, List.take_left]

/-- Reading the salt touches the buffer only, gives the salt behind the tag where there is room for
both, and refuses every other buffer as too small. -/
structure ReadsSalt (settings : Settings) (bytes : Bytes) : Prop where
  inside : Guarded.readSalt settings bytes = ExceptT.mk (some (readSalt settings bytes))
  found : ∀ salt, readSalt settings bytes = .ok salt → settings.fullLength ≤ bytes.length ∧
    ∃ front behind, bytes = front ++ salt ++ behind ∧
      front.length = settings.versionTag.length ∧ salt.length = settings.saltLength.toNat
  refused : ∀ defect, readSalt settings bytes = .error defect →
    defect = .noSalt ∧ bytes.length < settings.fullLength

private theorem readsSalt_iff : ReadsSalt settings bytes ↔
    ¬(UInt64.size ≤ settings.fullLength ∧ settings.prefixLength ≤ bytes.length) := by
  have read := saltRead settings bytes
  generalize result : readSalt settings bytes = answer at read
  constructor
  · rintro reads ⟨wraps, long⟩
    cases read with
    | short short => omega
    | wrapped => exact absurd (reads.refused _ result).1 (by decide)
    | found fits => omega
  · intro kept
    cases read with
    | short short =>
      have bound : settings.prefixLength ≤ settings.fullLength := by
        rw [prefixLength_mod]
        exact Nat.mod_le _ _
      refine ⟨?_, ?_, ?_⟩
      · rw [result, Guarded.readSalt, toNat_bodyStart, if_pos short]
        rfl
      · rintro salt found
        rw [result] at found
        cases found
      · rintro defect found
        rw [result] at found
        cases found
        exact ⟨rfl, by omega⟩
    | wrapped wraps long => exact absurd ⟨wraps, long⟩ kept
    | @found fits front salt behind whole before exact =>
      refine ⟨?_, ?_, ?_⟩
      · rw [result, Guarded.readSalt_eq fits whole before exact]
        rfl
      · intro salt' found
        rw [result] at found
        cases found
        refine ⟨?_, front, behind, whole, before, exact⟩
        rw [whole, Settings.fullLength, ← before, ← exact, List.length_append, List.length_append]
        omega
      · intro defect found
        rw [result] at found
        cases found

/-- Opening a package touches the buffer only, ends with a container or a defect of decryption, and
asks the cipher only where there is a body behind tag and salt. -/
structure OpensBody (settings : Settings) (bytes : Bytes) : Prop where
  inside : ∀ key mask, Guarded.openWith settings key mask bytes =
    ExceptT.mk (some (openWith settings key mask bytes))
  answer : ∀ key mask,
    (∃ text, openWith settings key mask bytes = .ok text ∧
      text.head? = some Container.firstMark) ∨
    ∃ defect, openWith settings key mask bytes = .error defect ∧ defect ≠ .saltTooLong
  body : ∀ head, Guarded.head settings bytes = pure head → settings.fullLength < bytes.length

private theorem openHead_error {key head : Bytes} {defect : Defect}
    (refused : openHead settings key head = .error defect) : defect ≠ .saltTooLong := by
  rintro rfl
  rw [openHead] at refused
  repeat' split at refused
  all_goals cases refused

private theorem openWith_cases (settings : Settings) (key : Bytes) (mask : UInt8) (bytes : Bytes) :
    (∃ text, openWith settings key mask bytes = .ok text ∧
      text.head? = some Container.firstMark) ∨
    ∃ defect, openWith settings key mask bytes = .error defect ∧ defect ≠ .saltTooLong := by
  rw [openWith]
  by_cases untagged : isSealed settings bytes = false
  · rw [if_pos untagged]
    exact .inr ⟨_, rfl, Defect.noConfusion⟩
  rw [if_neg untagged]
  by_cases short : bytes.length ≤ settings.prefixLength
  · rw [if_pos short]
    exact .inr ⟨_, rfl, Defect.noConfusion⟩
  rw [if_neg short]
  dsimp only
  generalize (bytes.drop settings.prefixLength).take settings.headLength.toNat = head
  cases opened : openHead settings key head with
  | error defect => exact .inr ⟨defect, rfl, openHead_error opened⟩
  | ok clear =>
    dsimp only
    split
    · next marked => exact .inl ⟨_, rfl, marked⟩
    · exact .inr ⟨_, rfl, Defect.noConfusion⟩

/-- The cipher is asked just if the tag stands in front, what a word holds of the length of tag and
salt leaves a body, and the head of that is whole blocks. -/
theorem exists_head_iff (fits : bytes.length < UInt64.size) :
    (∃ head, Guarded.head settings bytes = pure head) ↔
      isSealed settings bytes = true ∧ settings.prefixLength < bytes.length ∧
        min settings.headLength.toNat (bytes.length - settings.prefixLength) % 16 = 0 := by
  have refuses (defect : Defect) : ¬∃ head, (throw defect : Guarded Bytes) = pure head := by
    rintro ⟨_, impossible⟩
    cases impossible
  rw [Guarded.head_eq fits]
  dsimp only
  rw [List.length_take, List.length_drop, Cipher.Cbc.blockLength]
  by_cases untagged : isSealed settings bytes = false
  · simp only [untagged, if_true, refuses, Bool.false_eq_true, false_and]
  have tagged : isSealed settings bytes = true := by simpa using untagged
  rw [if_neg untagged]
  by_cases short : bytes.length ≤ settings.prefixLength
  · simp only [short, if_true, refuses, Nat.not_lt.mpr short, false_and, and_false]
  have more : settings.prefixLength < bytes.length := by omega
  rw [if_neg short]
  by_cases whole : min settings.headLength.toNat (bytes.length - settings.prefixLength) % 16 = 0
  · rw [if_neg (· whole)]
    exact ⟨fun _ => ⟨tagged, more, whole⟩, fun _ => ⟨_, rfl⟩⟩
  · simp only [whole, if_true, ne_eq, not_false_eq_true, refuses, and_false]

private theorem opensBody_iff (fits : bytes.length < UInt64.size) : OpensBody settings bytes ↔
    ¬(isSealed settings bytes = true ∧ settings.prefixLength < bytes.length ∧
      min settings.headLength.toNat (bytes.length - settings.prefixLength) % 16 = 0 ∧
      (UInt64.size ≤ settings.fullLength ∨
        0x80000000 ≤
          min settings.headLength.toNat (bytes.length - settings.prefixLength) % 0x100000000)) := by
  constructor
  · rintro opens ⟨tagged, more, whole, wraps | large⟩
    · obtain ⟨head, asked⟩ := (exists_head_iff fits).mpr ⟨tagged, more, whole⟩
      have room := opens.body head asked
      omega
    · obtain ⟨head, asked⟩ := (exists_head_iff fits).mpr ⟨tagged, more, whole⟩
      rw [← Guarded.length_of_head fits asked] at large
      have inside := opens.inside (List.replicate Cipher.Aes.keyLength 0) 0
      rw [Guarded.openWith_uncounted asked large List.length_replicate] at inside
      change none = some _ at inside
      cases inside
  · intro kept
    have counted (head : Bytes) (asked : Guarded.head settings bytes = pure head) :
        settings.prefixLength < bytes.length ∧ settings.fullLength < UInt64.size ∧
          head.length % 0x100000000 < 0x80000000 := by
      obtain ⟨tagged, more, whole⟩ := (exists_head_iff fits).mp ⟨head, asked⟩
      rw [Guarded.length_of_head fits asked]
      simp only [tagged, more, whole, true_and, not_or, Nat.not_le] at kept
      exact ⟨more, kept⟩
    refine ⟨Guarded.openWith_eq fits fun head asked => (counted head asked).2.2,
      fun key mask => openWith_cases settings key mask bytes, fun head asked => ?_⟩
    obtain ⟨more, bound, _⟩ := counted head asked
    rwa [← prefixLength_of_lt bound]

/-- A buffer is read as the lengths of tag and salt say, and never beyond its ends, just where their
sum does not wrap, or where what a word holds of it is still too long, and where the cipher can count
the head that it is handed. -/
theorem lengths_kept (fits : bytes.length < UInt64.size) :
    (ReadsSalt settings bytes ↔
      ¬(UInt64.size ≤ settings.fullLength ∧
        settings.fullLength % UInt64.size ≤ bytes.length)) ∧
    (OpensBody settings bytes ↔
      ¬(isSealed settings bytes = true ∧
        settings.fullLength % UInt64.size < bytes.length ∧
        min settings.headLength.toNat (bytes.length - settings.fullLength % UInt64.size) % 16 = 0 ∧
        (UInt64.size ≤ settings.fullLength ∨
          0x80000000 ≤ min settings.headLength.toNat
            (bytes.length - settings.fullLength % UInt64.size) % 0x100000000))) := by
  rw [← prefixLength_mod]
  exact ⟨readsSalt_iff, opensBody_iff fits⟩

/-- Settings for which the length of tag and salt is the given one. -/
def settingsOfLength (length : UInt64) : Settings := { saltLength := length - 6 }

/-- The largest length that a word can hold. -/
theorem lengths_kept_sample :
    (settingsOfLength 18446744073709551615).fullLength = 18446744073709551615 ∧
      ReadsSalt (settingsOfLength 18446744073709551615) (utf8 "V1MMWX0000022324") ∧
      OpensBody (settingsOfLength 18446744073709551615) (utf8 "V1MMWX0000022324") := by
  obtain ⟨salt, body⟩ := @lengths_kept (settingsOfLength 18446744073709551615)
    (utf8 "V1MMWX0000022324") (by decide +kernel)
  exact ⟨by decide +kernel, salt.mpr (by decide +kernel), body.mpr (by decide +kernel)⟩

/-- With a salt of one byte more the sum is zero. The salt is sought outside the buffer, and the
cipher is handed the tag, although the buffer has no room for a body. -/
theorem lengths_wrapped :
    (settingsOfLength 0).iv.length = 16 ∧
      readSalt (settingsOfLength 0) (utf8 "V1MMWX0000022324") = .error .saltTooLong ∧
      Guarded.readSalt (settingsOfLength 0) (utf8 "V1MMWX0000022324") = none ∧
      (utf8 "V1MMWX0000022324").length < (settingsOfLength 0).fullLength ∧
      Guarded.head (settingsOfLength 0) (utf8 "V1MMWX0000022324") =
        pure (utf8 "V1MMWX0000022324") ∧
      ¬ReadsSalt (settingsOfLength 0) (utf8 "V1MMWX0000022324") ∧
      ¬OpensBody (settingsOfLength 0) (utf8 "V1MMWX0000022324") := by
  refine ⟨by decide +kernel, by decide +kernel, rfl, by decide +kernel, rfl, ?_, ?_⟩
  · rw [readsSalt_iff, not_not]
    decide +kernel
  · rw [opensBody_iff (by decide +kernel), not_not]
    decide +kernel

end Unbundle.Sealed
