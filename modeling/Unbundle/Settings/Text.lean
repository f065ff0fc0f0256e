import Unbundle.Json.Plain
import Unbundle.Settings

namespace Unbundle.Settings

inductive TextDefect where
  | malformed (reason : Bytes)
  | notObject
  | policy (name : Bytes)
  | maskRange (n : Int)
  | value (reason : Bytes)
  | ivLength
  | headLength
  | missingSealing
  deriving DecidableEq, Repr

/-- A number in decimal digits, with a sign if it is negative. -/
def signed (n : Int) : Bytes :=
  (if n < 0 then [Ascii.minus] else []) ++ Bytes.decimal n.natAbs

def TextDefect.message : TextDefect → Bytes
  | malformed reason => utf8 "Failed to parse config JSON: " ++ reason
  | notObject => utf8 "Config must be a JSON object"
  | policy name => utf8 "Unknown failure_policy: " ++ name
  | maskRange n =>
    utf8 "crypto.default_xor_key must be a byte value (0-255), got " ++ signed n
  | value reason => utf8 "Invalid config value: " ++ reason
  | ivLength => utf8 "crypto.iv must be exactly 16 bytes"
  | headLength => utf8 "crypto.head_length must be a positive multiple of 16"
  | missingSealing => utf8 "crypto.version_tag and crypto.pbkdf2_iterations must be set"

/-- The settings themselves, if packages can be sealed and opened under them. -/
def validate (settings : Settings) : Except TextDefect Settings :=
  let sealing := settings.sealing
  if sealing.iv.length ≠ 16 then .error .ivLength
  else if sealing.headLength = 0 ∨ sealing.headLength % 16 ≠ 0 then .error .headLength
  else if sealing.versionTag = [] ∨ sealing.iterations < 1 then .error .missingSealing
  else .ok settings

variable {α : Type}

/-- What a field of an object sets, or what stands if there is none. -/
def fieldOr (object : Json.Value) (name : String) (take : Json.Value → Except Bytes α) (old : α) :
    Except TextDefect α :=
  match object.field? name with
  | none => .ok old
  | some value => (take value).mapError .value

def readPolicy (json : Json.Library) (object : Json.Value) (old : FailurePolicy) :
    Except TextDefect FailurePolicy := do
  let name ← fieldOr object "failure_policy" json.text (utf8 old.name)
  match FailurePolicy.ofName? name with
  | none => .error (.policy name)
  | some policy => .ok policy

def readMask (json : Json.Library) (object : Json.Value) (old : UInt8) :
    Except TextDefect UInt8 := do
  let mask ← fieldOr object "default_xor_key" (fun value => (json.int32 value).map Int32.toInt)
    old.toNat
  if mask < 0 ∨ 255 < mask then .error (.maskRange mask) else .ok mask.toNat.toUInt8

/-- How packages are sealed, as an object says. What is no object says nothing. -/
def readSealing (json : Json.Library) (old : Sealed.Settings) (object : Json.Value) :
    Except TextDefect Sealed.Settings := do
  let versionTag ← fieldOr object "version_tag" json.text old.versionTag
  let saltLength ← fieldOr object "salt_length" json.word64 old.saltLength
  let iv ← fieldOr object "iv" json.text old.iv
  let iterations ← fieldOr object "pbkdf2_iterations"
    (fun value => (json.int32 value).map Int32.toInt) old.iterations
  let headLength ← fieldOr object "head_length" json.word64 old.headLength
  let defaultMask ← readMask json object old.defaultMask
  .ok { versionTag, saltLength, iv, iterations, headLength, defaultMask }

/-- The settings with what an object sets, field by field; the first that cannot be taken decides. -/
def readObject (json : Json.Library) (old : Settings) (object : Json.Value) :
    Except TextDefect Settings := do
  let containerExtension ← fieldOr object "container_extension" json.text old.containerExtension
  let mainPackageNames ← fieldOr object "main_package_names" json.texts old.mainPackageNames
  let bundleNames ← fieldOr object "bundle_names" json.texts old.bundleNames
  let registrationNames ← fieldOr object "registration_names" json.texts old.registrationNames
  let maxEntryCount ← fieldOr object "max_entry_count" json.word32 old.maxEntryCount
  let appId ← fieldOr object "app_id" json.text old.appId
  let failurePolicy ← readPolicy json object old.failurePolicy
  let sealing ← match object.field? "crypto" with
    | none => .ok old.sealing
    | some object => readSealing json old.sealing object
  .ok { old with
    containerExtension, mainPackageNames, bundleNames, registrationNames, maxEntryCount, appId
    failurePolicy, sealing }

/-- The settings after a text has been read over them. -/
def readText (settings : Settings) (text : Bytes) (json : Json.Library := .plain) :
    Except TextDefect Settings :=
  match json.parse text with
  | .error reason => .error (.malformed reason)
  | .ok (.object fields) => do (← readObject json settings (.object fields)).validate
  | .ok _ => .error .notObject

end Unbundle.Settings
