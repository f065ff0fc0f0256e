import Unbundle.Cipher.Cbc
import Unbundle.Container.Basic
import Unbundle.Digest.KeyDerivation
import Unbundle.Sealed.AppId

namespace Unbundle.Sealed

inductive Defect where
  | noSalt
  | saltTooLong
  | missingTag (tag : Bytes)
  | noBody
  | unaligned (length : Nat)
  | keyLength (length : Nat)
  | uncounted (length : Nat)
  | badPadding
  | notContainer
  | saltLength (expected : Nat)
  deriving DecidableEq, Repr

def Defect.message : Defect → Bytes
  | noSalt => utf8 "encrypted container too small for its salt"
  | saltTooLong => utf8 "cannot create std::vector larger than max_size()"
  | missingTag tag => utf8 "missing version tag " ++ tag
  | noBody => utf8 "encrypted container has no body"
  | unaligned length =>
    utf8 "cipher segment of " ++ Bytes.decimal length ++ utf8 " bytes is not block aligned"
  | keyLength length => utf8 "AES-256 key must be 32 bytes, got " ++ Bytes.decimal length
  | uncounted length => utf8 "cipher cannot count " ++ Bytes.decimal length ++ utf8 " bytes"
  | badPadding => utf8 "bad padding (wrong key or app id?)"
  | notContainer => utf8 "decrypted data is not a container (wrong app id?)"
  | saltLength expected => utf8 "salt must be " ++ Bytes.decimal expected ++ utf8 " bytes"

/-- An empty tag marks nothing as sealed. -/
def isSealed (settings : Settings) (bytes : Bytes) : Bool :=
  settings.versionTag ≠ [] && settings.versionTag.isPrefixOf bytes

/-- The salt after the tag. A length that no machine word can add to the tag is refused. -/
def readSalt (settings : Settings) (bytes : Bytes) : Except Defect Bytes :=
  if bytes.length < settings.prefixLength then .error .noSalt
  else if settings.prefixLength ≠ settings.versionTag.length + settings.saltLength.toNat then
    .error .saltTooLong
  else .ok ((bytes.drop settings.versionTag.length).take settings.saltLength.toNat)

/-- The head in clear. The cipher is handed as many bytes of it as a signed word can count; there is
no saying what it does with a negative count. -/
def openHead (settings : Settings) (key head : Bytes) : Except Defect Bytes :=
  if head.length % Cipher.Cbc.blockLength ≠ 0 then .error (.unaligned head.length)
  else if key.length ≠ Cipher.Aes.keyLength then .error (.keyLength key.length)
  else
    match Cipher.Cbc.count? head.length with
    | none => .error (.uncounted head.length)
    | some count =>
      match Cipher.Cbc.decrypt? key settings.iv (head.take count) with
      | none => .error .badPadding
      | some text => .ok text

/-- The container inside a sealed package. -/
def openWith (settings : Settings) (key : Bytes) (mask : UInt8) (bytes : Bytes) :
    Except Defect Bytes :=
  if isSealed settings bytes = false then .error (.missingTag settings.versionTag)
  else if bytes.length ≤ settings.prefixLength then .error .noBody
  else
    let body := bytes.drop settings.prefixLength
    match openHead settings key (body.take settings.headLength.toNat) with
    | .error defect => .error defect
    | .ok head =>
      let text := head ++ Bytes.mask mask (body.drop settings.headLength.toNat)
      if text.head? = some Container.firstMark then .ok text else .error .notContainer

/-- The key of an app, unless the settings ask for no iteration at all. -/
def deriveKey? (settings : Settings) (appId salt : Bytes) : Option Bytes :=
  if settings.iterations < 1 then none
  else some (Digest.KeyDerivation.derive appId salt settings.iterations.toNat)

/-- How much of a text goes into the head: padding takes at least one byte of it. A head of no
length takes the whole text, the machine word for one less being the largest. -/
def headRoom (settings : Settings) : Nat := (settings.headLength - 1).toNat

/-- The sealed form of a text under the key of an app. -/
def sealWith (settings : Settings) (key appId salt text : Bytes) : Except Defect Bytes :=
  let head := text.take (headRoom settings)
  match Cipher.Cbc.encryptCounted? key settings.iv head with
  | none => .error (.uncounted head.length)
  | some closed =>
    .ok (settings.versionTag ++ salt ++ closed ++
      Bytes.mask (maskKey settings appId) (text.drop (headRoom settings)))

end Unbundle.Sealed
