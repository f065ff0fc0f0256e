import Unbundle.Proofs.Answer
import Unbundle.Sealed.Keyring
import Unbundle.Settings.Text

/-!
Opening what was sealed. Main statement: a sealed text is opened to the text itself, or refused if
the text does not start like a container, just as far as the cipher can count its head.
-/

namespace Unbundle.Sealed

open Cipher

/-- Settings that texts can be sealed under and opened again. -/
structure Settings.Usable (settings : Settings) : Prop where
  tagged : settings.versionTag ≠ []
  positive : 0 < settings.headLength.toNat
  aligned : settings.headLength.toNat % Cbc.blockLength = 0
  repeated : 1 ≤ settings.iterations

/-- A salt of the length that the settings ask for, which can stand behind the tag. -/
structure Settings.Salts (settings : Settings) (salt : Bytes) : Prop where
  length : salt.length = settings.saltLength.toNat
  fits : settings.versionTag.length + salt.length < UInt64.size

/-- Settings that have been read from a text are usable, whatever they were read over. -/
theorem usable_of_readText {json : Json.Library} {old read : Unbundle.Settings} {text : Bytes}
    (accepted : old.readText text json = .ok read) :
    read.sealing.iv.length = Cbc.blockLength ∧ read.sealing.Usable := by
  rw [Unbundle.Settings.readText] at accepted
  split at accepted
  · cases accepted
  · obtain ⟨found, -, valid⟩ := bind_eq_ok.mp accepted
    simp only [Unbundle.Settings.validate, check_eq_ok, not_or] at valid
    obtain ⟨iv, head, sealing, same⟩ := valid
    obtain rfl : found = read := by simpa using same
    refine ⟨Decidable.not_not.mp iv, sealing.1, ?_, ?_, Int.not_lt.mp sealing.2⟩
    · exact Nat.pos_of_ne_zero fun zero => head.1 (UInt64.toNat_inj.mp zero)
    · exact congrArg UInt64.toNat (Decidable.not_not.mp head.2)
  · cases accepted

variable {settings : Settings} {appId key salt text : Bytes}

theorem deriveKey_ok (usable : settings.Usable) (appId salt : Bytes) :
    ∃ key, deriveKey settings appId salt = .ok key ∧ key.length = Aes.keyLength := by
  refine ⟨Digest.KeyDerivation.derive appId salt settings.iterations.toNat, ?_,
    Digest.KeyDerivation.length_derive _ _ _⟩
  rw [deriveKey, deriveKey?, if_neg (by have := usable.repeated; omega)]

theorem sealPackage_eq (salts : settings.Salts salt)
    (derived : deriveKey settings appId salt = .ok key) (text : Bytes) :
    sealPackage settings appId salt text =
      (sealWith settings key appId salt text).mapError .body := by
  rw [sealPackage, if_neg (· salts.length), derived]

private theorem prefixLength_eq (salts : settings.Salts salt) :
    settings.prefixLength = settings.versionTag.length + salt.length := by
  have fits := salts.fits
  have length := salts.length
  simp only [Settings.prefixLength, UInt64.toNat_add, Nat.toUInt64, UInt64.toNat_ofNat']
  simp only [UInt64.size] at fits
  omega

private theorem headRoom_eq (usable : settings.Usable) :
    headRoom settings = settings.headLength.toNat - 1 := by
  have positive := usable.positive
  have one : (1 : UInt64) ≤ settings.headLength := UInt64.le_iff_toNat_le.mpr positive
  rw [headRoom, UInt64.toNat_sub_of_le _ _ one]
  rfl

/-- The enciphered part of a text. -/
def sealedHead (settings : Settings) (key text : Bytes) : Bytes :=
  Cbc.encrypt key settings.iv (text.take (headRoom settings))

/-- The masked part of a text. -/
def sealedTail (settings : Settings) (appId text : Bytes) : Bytes :=
  Bytes.mask (maskKey settings appId) (text.drop (headRoom settings))

/-- The tag and the salt, and the two parts of a text behind them. -/
def sealedForm (settings : Settings) (key appId salt text : Bytes) : Bytes :=
  settings.versionTag ++ (salt ++ (sealedHead settings key text ++ sealedTail settings appId text))

/-- The cipher has words for the length of a head that holds this much of a text. -/
def Settings.Counts (settings : Settings) (text : Bytes) : Prop :=
  (min (settings.headLength.toNat - 1) text.length / 16 + 1) * 16 < 0x80000000

private theorem length_sealedHead (settings : Settings) (key text : Bytes) :
    (sealedHead settings key text).length =
      (min (headRoom settings) text.length / Cbc.blockLength + 1) * Cbc.blockLength := by
  rw [sealedHead, Cbc.length_encrypt, List.length_take]

private theorem length_sealedTail (settings : Settings) (appId text : Bytes) :
    (sealedTail settings appId text).length =
      text.length - min (headRoom settings) text.length := by
  rw [sealedTail, Bytes.length_mask, List.length_drop]
  omega

/-- The head ends where the reader of the head stops: a text that fills it leaves a tail, and one
that does not leaves none. -/
theorem split_body (usable : settings.Usable) (key appId text : Bytes) :
    (sealedHead settings key text ++ sealedTail settings appId text).take
        settings.headLength.toNat = sealedHead settings key text ∧
      (sealedHead settings key text ++ sealedTail settings appId text).drop
        settings.headLength.toNat = sealedTail settings appId text := by
  have head := length_sealedHead settings key text
  have tail := length_sealedTail settings appId text
  have positive := usable.positive
  have aligned := usable.aligned
  rw [headRoom_eq usable] at head tail
  simp only [Cbc.blockLength] at head aligned
  by_cases fills : settings.headLength.toNat - 1 ≤ text.length
  · have whole : (sealedHead settings key text).length = settings.headLength.toNat := by
      rw [Nat.min_eq_left fills] at head
      omega
    exact ⟨List.take_left' whole, List.drop_left' whole⟩
  · have short : (sealedHead settings key text).length ≤ settings.headLength.toNat := by
      rw [Nat.min_eq_right (by omega)] at head
      omega
    have none : sealedTail settings appId text = [] := by
      rw [Nat.min_eq_right (by omega), Nat.sub_self] at tail
      exact List.length_eq_zero_iff.mp tail
    rw [none, List.append_nil]
    exact ⟨List.take_of_length_le short, List.drop_of_length_le short⟩

theorem Settings.Counts.head (usable : settings.Usable) (counts : settings.Counts text) :
    ((text.take (headRoom settings)).length / Cbc.blockLength + 1) * Cbc.blockLength <
      0x80000000 := by
  rw [List.length_take, headRoom_eq usable]
  exact counts

theorem sealWith_of_counts (usable : settings.Usable) (counts : settings.Counts text)
    (key appId salt : Bytes) :
    sealWith settings key appId salt text = .ok (sealedForm settings key appId salt text) := by
  rw [sealWith, Cbc.encryptCounted?_of_lt (counts.head usable)]
  simp only [sealedForm, sealedHead, sealedTail, List.append_assoc]

private theorem openHead_encrypt (long : key.length = Aes.keyLength)
    (small : (text.length / Cbc.blockLength + 1) * Cbc.blockLength < 0x80000000) :
    openHead settings key (Cbc.encrypt key settings.iv text) = .ok text := by
  have length := Cbc.length_encrypt key settings.iv text
  have aligned : (Cbc.encrypt key settings.iv text).length % Cbc.blockLength = 0 := by
    rw [length, Nat.mul_mod_left]
  rw [← length] at small
  rw [openHead, if_neg (· aligned), if_neg (· long), Cbc.count?_of_lt small]
  dsimp only
  rw [List.take_length, Cbc.decrypt?_encrypt]

theorem isSealed_sealedForm (usable : settings.Usable) (key appId salt text : Bytes) :
    isSealed settings (sealedForm settings key appId salt text) = true := by
  rw [isSealed, sealedForm]
  simp [usable.tagged]

private theorem readSalt_append (salts : settings.Salts salt) (body : Bytes) :
    readSalt settings (settings.versionTag ++ (salt ++ body)) = .ok salt := by
  have before := prefixLength_eq salts
  have long : ¬(settings.versionTag ++ (salt ++ body)).length < settings.prefixLength := by
    rw [before]
    simp only [List.length_append]
    omega
  rw [readSalt, if_neg long, if_neg (· (by rw [before, salts.length])), List.drop_left,
    List.take_left' salts.length]

theorem readSalt_sealedForm (salts : settings.Salts salt) (key appId text : Bytes) :
    readSalt settings (sealedForm settings key appId salt text) = .ok salt :=
  readSalt_append salts _

theorem openWith_append (usable : settings.Usable) (salts : settings.Salts salt)
    (mask : UInt8) {body : Bytes} (some : body ≠ []) :
    openWith settings key mask (settings.versionTag ++ (salt ++ body)) =
      match openHead settings key (body.take settings.headLength.toNat) with
      | .error defect => .error defect
      | .ok head =>
        let text := head ++ Bytes.mask mask (body.drop settings.headLength.toNat)
        if text.head? = Option.some Container.firstMark then .ok text
        else .error .notContainer := by
  have before := prefixLength_eq salts
  have tagged : isSealed settings (settings.versionTag ++ (salt ++ body)) = true := by
    rw [isSealed]
    simp [usable.tagged]
  have positive := List.length_pos_iff.mpr some
  have more : ¬(settings.versionTag ++ (salt ++ body)).length ≤ settings.prefixLength := by
    rw [before]
    simp only [List.length_append]
    omega
  have behind : (settings.versionTag ++ (salt ++ body)).drop settings.prefixLength = body := by
    rw [before, ← List.append_assoc]
    exact List.drop_left' (by rw [List.length_append])
  cases opened : openHead settings key (body.take settings.headLength.toNat) <;>
    simp only [openWith, tagged, Bool.true_eq_false, if_false, if_neg more, behind, opened]

private theorem sealedHead_ne_nil (settings : Settings) (key text : Bytes) :
    sealedHead settings key text ≠ [] := by
  intro none
  have length := length_sealedHead settings key text
  rw [none, List.length_nil, Cbc.blockLength] at length
  omega

theorem openWith_sealedForm (usable : settings.Usable) (salts : settings.Salts salt)
    (counts : settings.Counts text) (long : key.length = Aes.keyLength) (appId : Bytes) :
    openWith settings key (maskKey settings appId) (sealedForm settings key appId salt text) =
      if text.head? = some Container.firstMark then .ok text else .error .notContainer := by
  obtain ⟨head, tail⟩ := split_body usable key appId text
  rw [sealedForm, openWith_append usable salts _
    (List.append_ne_nil_of_left_ne_nil (sealedHead_ne_nil settings key text) _), head, tail,
    sealedHead, openHead_encrypt long (counts.head usable), sealedTail, Bytes.mask_mask]
  dsimp only
  rw [List.take_append_drop]

/-- A text that fits into the head is lost if the low half of its length is zero. -/
theorem sealWith_of_multiple (usable : settings.Usable) (salts : settings.Salts salt)
    (long : key.length = Aes.keyLength) (appId : Bytes)
    (within : text.length ≤ settings.headLength.toNat - 1)
    (multiple : text.length % 0x100000000 = 0) :
    ∃ bytes, sealWith settings key appId salt text = .ok bytes ∧
      isSealed settings bytes = true ∧ readSalt settings bytes = .ok salt ∧
      ∀ mask, openWith settings key mask bytes = .error .notContainer := by
  rw [← headRoom_eq usable] at within
  have empty : Cbc.count? text.length = some 0 := by
    rw [Cbc.count?, multiple]
    rfl
  have length : (Cbc.encrypt key settings.iv []).length = 16 := Cbc.length_encrypt ..
  have aligned := usable.aligned
  have positive := usable.positive
  rw [Cbc.blockLength] at aligned
  refine ⟨settings.versionTag ++ (salt ++ Cbc.encrypt key settings.iv []), ?_, ?_,
    readSalt_append salts _, fun mask => ?_⟩
  · simp only [sealWith, List.take_of_length_le within, List.drop_of_length_le within,
      Cbc.encryptCounted?, empty, Option.bind_eq_bind, Option.bind_some, List.take_zero, length]
    rw [if_pos (by decide)]
    simp [Bytes.mask]
  · rw [isSealed]
    simp [usable.tagged]
  · have some : Cbc.encrypt key settings.iv [] ≠ [] := by
      rw [← List.length_pos_iff, length]
      decide
    rw [openWith_append usable salts _ some, List.take_of_length_le (by omega),
      List.drop_of_length_le (by omega), openHead_encrypt long (by decide)]
    rfl

end Unbundle.Sealed
