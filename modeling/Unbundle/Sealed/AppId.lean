import Unbundle.Path.FileName
import Unbundle.Sealed.Settings

namespace Unbundle.Sealed

open Ascii

def isLowerHex (b : UInt8) : Bool := isDigit b || 0x61 ≤ b && b ≤ 0x66

def isAppId (text : Bytes) : Bool :=
  text.length = 18 && (text.take 2).all isLetter && (text.drop 2).all isLowerHex

/-- The nearest directory of a path that is named like an app id; empty if there is none. -/
def findAppId (path : Bytes) : Bytes :=
  ((Path.segments (Path.parent path)).reverse.find? isAppId).getD []

/-- The byte that masks the tail: the last but one of the app id. -/
def maskKey (settings : Settings) (appId : Bytes) : UInt8 :=
  appId.dropLast.getLast?.getD settings.defaultMask

end Unbundle.Sealed
