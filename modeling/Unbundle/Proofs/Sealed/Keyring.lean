import Unbundle.Proofs.Sealed.Opening

namespace Unbundle.Sealed

variable {settings : Settings} {ring : Keyring} {appId salt text bytes : Bytes}

/-- Every key of the ring is the one that would be derived. -/
def Keyring.Sound (ring : Keyring) (settings : Settings) : Prop :=
  ∀ appId entry, ring.keys[appId]? = some entry →
    deriveKey settings appId entry.salt = .ok entry.key

namespace Keyring

theorem sound_empty (settings : Settings) : ({} : Keyring).Sound settings := by
  intro appId entry found
  simp at found

private theorem remembered?_empty (appId salt : Bytes) : ({} : Keyring).remembered? appId salt =
    none := by
  simp [remembered?]

private theorem resolve_empty {key : Bytes} (valid : isAppId appId = true)
    (derived : deriveKey settings appId salt = .ok key) :
    ({} : Keyring).resolve settings appId salt =
      (.ok key, ({} : Keyring).record appId salt key) := by
  rw [resolve, checkAppId, if_pos valid]
  dsimp only
  rw [remembered?_empty, derived]

theorem Sound.remembered {key : Bytes} (sound : ring.Sound settings)
    (known : ring.remembered? appId salt = some key) : deriveKey settings appId salt = .ok key := by
  rw [remembered?] at known
  cases found : ring.keys[appId]? with
  | none =>
    rw [found] at known
    cases known
  | some entry =>
    rw [found] at known
    dsimp only at known
    by_cases same : entry.salt = salt
    · rw [if_pos same] at known
      cases known
      rw [← same]
      exact sound appId entry found
    · rw [if_neg same] at known
      cases known

theorem Sound.record {key : Bytes} (sound : ring.Sound settings)
    (derived : deriveKey settings appId salt = .ok key) :
    (ring.record appId salt key).Sound settings := by
  intro other entry found
  rw [Keyring.record, Std.ExtTreeMap.getElem?_insert] at found
  simp only [Std.LawfulEqCmp.compare_eq_iff_eq] at found
  by_cases same : appId = other
  · rw [if_pos same] at found
    cases found
    rwa [← same]
  · rw [if_neg same] at found
    exact sound other entry found

/-- A sound ring stays sound and gives the keys that an empty one gives. -/
theorem Sound.resolve (sound : ring.Sound settings) (appId salt : Bytes) :
    (ring.resolve settings appId salt).1 = (({} : Keyring).resolve settings appId salt).1 ∧
      (ring.resolve settings appId salt).2.Sound settings := by
  rw [Keyring.resolve, Keyring.resolve, remembered?_empty]
  cases checkAppId appId with
  | error defect => exact ⟨rfl, sound⟩
  | ok valid =>
    dsimp only
    cases known : ring.remembered? appId salt with
    | some key =>
      rw [sound.remembered known]
      exact ⟨rfl, sound⟩
    | none =>
      dsimp only
      cases derived : deriveKey settings appId salt with
      | error defect => exact ⟨rfl, sound⟩
      | ok key => exact ⟨rfl, sound.record derived⟩

end Keyring

/-- What a package is opened to does not depend on the packages opened before it. -/
theorem openPackage_sound (sound : ring.Sound settings) (appId bytes : Bytes) :
    (openPackage ring settings appId bytes).1 = (openPackage {} settings appId bytes).1 ∧
      (openPackage ring settings appId bytes).2.Sound settings := by
  rw [openPackage, openPackage]
  cases readSalt settings bytes with
  | error defect => exact ⟨rfl, sound⟩
  | ok salt =>
    obtain ⟨same, still⟩ := sound.resolve appId salt
    dsimp only
    rcases resolved : ring.resolve settings appId salt with ⟨result, after⟩
    rcases fresh : ({} : Keyring).resolve settings appId salt with ⟨result', after'⟩
    rw [resolved, fresh] at same
    rw [resolved] at still
    subst same
    cases result with
    | error defect => exact ⟨rfl, still⟩
    | ok key => exact ⟨rfl, still⟩

/-- A sealed form exists for every text whose head the cipher can count. -/
theorem exists_sealPackage (usable : settings.Usable) (salts : settings.Salts salt)
    (counts : settings.Counts text) (appId : Bytes) :
    ∃ bytes, sealPackage settings appId salt text = .ok bytes := by
  obtain ⟨key, derived, _⟩ := deriveKey_ok usable appId salt
  refine ⟨sealedForm settings key appId salt text, ?_⟩
  rw [sealPackage_eq salts derived, sealWith_of_counts usable counts]
  rfl

theorem openPackage_of_salt {key : Bytes} (sound : ring.Sound settings)
    (valid : isAppId appId = true) (derived : deriveKey settings appId salt = .ok key)
    (salted : readSalt settings bytes = .ok salt) :
    (openPackage ring settings appId bytes).1 =
      (openWith settings key (maskKey settings appId) bytes).mapError .body := by
  rw [(openPackage_sound sound appId _).1, openPackage, salted]
  dsimp only
  rw [Keyring.resolve_empty valid derived]

/-- A sealed container is known as such and is opened to its text, whatever was opened before. -/
theorem openPackage_seal (usable : settings.Usable) (salts : settings.Salts salt)
    (counts : settings.Counts text) (valid : isAppId appId = true)
    (starts : text.head? = some Container.firstMark)
    (closed : sealPackage settings appId salt text = .ok bytes) (sound : ring.Sound settings) :
    isSealed settings bytes = true ∧ (openPackage ring settings appId bytes).1 = .ok text := by
  obtain ⟨key, derived, long⟩ := deriveKey_ok usable appId salt
  rw [sealPackage_eq salts derived, sealWith_of_counts usable counts] at closed
  cases closed
  refine ⟨isSealed_sealedForm usable .., ?_⟩
  rw [openPackage_of_salt sound valid derived (readSalt_sealedForm salts ..),
    openWith_sealedForm usable salts counts long, if_pos starts]
  rfl

/-- A container that is lost in its head is known as sealed, and there is none inside. -/
theorem openPackage_of_multiple (usable : settings.Usable) (salts : settings.Salts salt)
    (valid : isAppId appId = true) (within : text.length ≤ settings.headLength.toNat - 1)
    (multiple : text.length % 0x100000000 = 0) (sound : ring.Sound settings) :
    ∃ bytes, sealPackage settings appId salt text = .ok bytes ∧
      isSealed settings bytes = true ∧
      (openPackage ring settings appId bytes).1 = .error (.body .notContainer) := by
  obtain ⟨key, derived, long⟩ := deriveKey_ok usable appId salt
  obtain ⟨bytes, closed, known, salted, opened⟩ :=
    sealWith_of_multiple usable salts long appId within multiple
  refine ⟨bytes, ?_, known, ?_⟩
  · rw [sealPackage_eq salts derived, closed]
    rfl
  · rw [openPackage_of_salt sound valid derived salted, opened]
    rfl

end Unbundle.Sealed
