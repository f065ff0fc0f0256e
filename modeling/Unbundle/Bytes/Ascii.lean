import Unbundle.Bytes

namespace Unbundle.Ascii

abbrev nul : UInt8 := 0x00
abbrev backspace : UInt8 := 0x08
abbrev tab : UInt8 := 0x09
abbrev newline : UInt8 := 0x0A
abbrev verticalTab : UInt8 := 0x0B
abbrev formFeed : UInt8 := 0x0C
abbrev carriageReturn : UInt8 := 0x0D
abbrev space : UInt8 := 0x20
abbrev doubleQuote : UInt8 := 0x22
abbrev numberSign : UInt8 := 0x23
abbrev dollar : UInt8 := 0x24
abbrev percent : UInt8 := 0x25
abbrev ampersand : UInt8 := 0x26
abbrev singleQuote : UInt8 := 0x27
abbrev leftParen : UInt8 := 0x28
abbrev rightParen : UInt8 := 0x29
abbrev star : UInt8 := 0x2A
abbrev plus : UInt8 := 0x2B
abbrev comma : UInt8 := 0x2C
abbrev minus : UInt8 := 0x2D
abbrev dot : UInt8 := 0x2E
abbrev slash : UInt8 := 0x2F
abbrev equals : UInt8 := 0x3D
abbrev greater : UInt8 := 0x3E
abbrev questionMark : UInt8 := 0x3F
abbrev leftBracket : UInt8 := 0x5B
abbrev backslash : UInt8 := 0x5C
abbrev rightBracket : UInt8 := 0x5D
abbrev underscore : UInt8 := 0x5F
abbrev backtick : UInt8 := 0x60
abbrev leftBrace : UInt8 := 0x7B
abbrev rightBrace : UInt8 := 0x7D

def isUpper (b : UInt8) : Bool := 0x41 ≤ b && b ≤ 0x5A

def isLower (b : UInt8) : Bool := 0x61 ≤ b && b ≤ 0x7A

def isLetter (b : UInt8) : Bool := isUpper b || isLower b

def isDigit (b : UInt8) : Bool := 0x30 ≤ b && b ≤ 0x39

def isQuote (b : UInt8) : Bool := b = doubleQuote || b = singleQuote

def toLower (b : UInt8) : UInt8 := if isUpper b then b + 0x20 else b

/-- The value of a hexadecimal digit in either case. -/
def hexValue? (b : UInt8) : Option UInt8 :=
  if isDigit b then some (b - 0x30)
  else if 0x61 ≤ b && b ≤ 0x66 then some (b - 0x57)
  else if 0x41 ≤ b && b ≤ 0x46 then some (b - 0x37)
  else none

end Unbundle.Ascii
