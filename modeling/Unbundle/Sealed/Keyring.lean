import Unbundle.Sealed.Envelope
import Std.Data.ExtTreeMap

namespace Unbundle.Sealed

inductive KeyDefect where
  | noAppId
  | invalidAppId (text : Bytes)
  | derivation (appId : Bytes)
  deriving DecidableEq, Repr

def KeyDefect.message : KeyDefect → Bytes
  | noAppId =>
    utf8 "package is encrypted but no app id was found in its path (use --appid)"
  | invalidAppId text => utf8 "'" ++ text ++ utf8 "' is not a valid app id"
  | derivation appId => utf8 "PBKDF2 key derivation failed for " ++ appId

structure SaltedKey where
  salt : Bytes
  key : Bytes
  deriving DecidableEq, Repr

/-- The key last derived for each app, and how many were derived in all. -/
structure Keyring where
  keys : Std.ExtTreeMap Bytes SaltedKey := ∅
  derivations : Nat := 0

def deriveKey (settings : Settings) (appId salt : Bytes) : Except KeyDefect Bytes :=
  match deriveKey? settings appId salt with
  | none => .error (.derivation appId)
  | some key => .ok key

def checkAppId (text : Bytes) : Except KeyDefect Unit :=
  if isAppId text then .ok ()
  else if text = [] then .error .noAppId
  else .error (.invalidAppId text)

namespace Keyring

/-- The remembered key of an app, if it was derived for this salt. -/
def remembered? (ring : Keyring) (appId salt : Bytes) : Option Bytes :=
  match ring.keys[appId]? with
  | none => none
  | some entry => if entry.salt = salt then some entry.key else none

/-- The ring after one more derivation. -/
def record (ring : Keyring) (appId salt key : Bytes) : Keyring where
  keys := ring.keys.insert appId ⟨salt, key⟩
  derivations := ring.derivations + 1

/-- The key of an app for a salt, from the ring or derived and then remembered. -/
def resolve (ring : Keyring) (settings : Settings) (appId salt : Bytes) :
    Except KeyDefect Bytes × Keyring :=
  match checkAppId appId with
  | .error defect => (.error defect, ring)
  | .ok () =>
    match ring.remembered? appId salt with
    | some key => (.ok key, ring)
    | none =>
      match deriveKey settings appId salt with
      | .error defect => (.error defect, ring)
      | .ok key => (.ok key, ring.record appId salt key)

end Keyring

/-- Why a sealed package stays closed. -/
inductive OpenDefect where
  | key (defect : KeyDefect)
  | body (defect : Defect)
  deriving DecidableEq, Repr

/-- The container inside a sealed package of an app, by the key for the salt in it. -/
def openPackage (ring : Keyring) (settings : Settings) (appId bytes : Bytes) :
    Except OpenDefect Bytes × Keyring :=
  match readSalt settings bytes with
  | .error defect => (.error (.body defect), ring)
  | .ok salt =>
    match ring.resolve settings appId salt with
    | (.error defect, ring) => (.error (.key defect), ring)
    | (.ok key, ring) =>
      ((openWith settings key (maskKey settings appId) bytes).mapError .body, ring)

/-- The sealed form of a text for an app. -/
def sealPackage (settings : Settings) (appId salt text : Bytes) : Except OpenDefect Bytes :=
  if salt.length ≠ settings.saltLength.toNat then
    .error (.body (.saltLength settings.saltLength.toNat))
  else
    match deriveKey settings appId salt with
    | .error defect => .error (.key defect)
    | .ok key => (sealWith settings key appId salt text).mapError .body

end Unbundle.Sealed
