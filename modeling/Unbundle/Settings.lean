import Unbundle.Sealed.Settings

namespace Unbundle

/-- What a run does when one of its packages fails. `auto` goes on among the packages of a
directory and stops where there is only one. -/
inductive FailurePolicy where
  | auto | proceed | abort
  deriving DecidableEq, Repr

namespace FailurePolicy

def name : FailurePolicy → String
  | auto => "auto"
  | proceed => "continue"
  | abort => "abort"

def ofName? (text : Bytes) : Option FailurePolicy :=
  [auto, proceed, abort].find? fun policy => utf8 policy.name = text

end FailurePolicy

/-- An empty `appId` asks for the one in a package's path, and an empty `ledgerPath` for no
ledger. -/
structure Settings where
  containerExtension : Bytes := utf8 ".wxapkg"
  mainPackageNames : List Bytes := [utf8 "__APP__.wxapkg", utf8 "APP.wxapkg", utf8 "app.wxapkg"]
  bundleNames : List Bytes :=
    [utf8 "app-service.js", utf8 "appservice.app.js", utf8 "game.js", utf8 "workers.js",
     utf8 "plugin.js"]
  registrationNames : List Bytes := [utf8 "define"]
  maxEntryCount : UInt32 := 1048576
  failurePolicy : FailurePolicy := .auto
  appId : Bytes := []
  ledgerPath : Bytes := []
  sealing : Sealed.Settings := {}
  deriving DecidableEq, Repr

end Unbundle
