import Unbundle.Bytes.Ascii
import Unbundle.Ledger.Plain.Trouble

/-!
Addresses of ledgers. An address is a path, or a link `file:path?name=word&name=word#note`. In a
link a percent sign with two digits stands for a byte, and parameters tell how to use the file.
-/

namespace Unbundle.Ledger.Plain

open Ascii

/-- What may be done with the file of a ledger: reading it, changing it, making it if it is
missing. A ledger in memory has no file. -/
inductive Access where
  | readOnly | readWrite | create | memory
  deriving DecidableEq, Repr

namespace Access

def ofWord? (word : Bytes) : Option Access :=
  if word = utf8 "ro" then some .readOnly
  else if word = utf8 "rw" then some .readWrite
  else if word = utf8 "rwc" then some .create
  else if word = utf8 "memory" then some .memory
  else none

/-- A later word cannot allow what an earlier one has left out. -/
def admits : Access → Access → Bool
  | .readOnly, .readWrite | .readOnly, .create | .readWrite, .create => false
  | _, _ => true

end Access

/-- How files are reached: shared with others, kept from them, kept from them by a lock that lies
beside the file, without any care for them, or not at all. Only the first two know logs. -/
inductive System where
  | shared | exclusive | locking | careless | memory
  deriving DecidableEq, Repr

def System.ofWord? (word : Bytes) : Option System :=
  if word = utf8 "unix" then some .shared
  else if word = utf8 "unix-excl" then some .exclusive
  else if word = utf8 "unix-dotfile" then some .locking
  else if word = utf8 "unix-none" then some .careless
  else if word = utf8 "memdb" then some .memory
  else none

structure Address where
  path : Bytes
  parameters : List (Bytes × Bytes) := []
  access : Access := .create
  system : System := .shared
  deriving DecidableEq, Repr

namespace Address

/-- The byte that two hexadecimal digits spell. -/
def byte? (high low : UInt8) : Option UInt8 := do
  some ((← hexValue? high) * 16 + (← hexValue? low))

/-- The text with every byte that is written as a percent sign and two digits. It ends where the
byte so written is zero. -/
def unescape : Bytes → Bytes
  | a :: b :: c :: rest =>
    match (if a = percent then byte? b c else none) with
    | none => a :: unescape (b :: c :: rest)
    | some value => if value = 0 then [] else value :: unescape rest
  | text => text

/-- The text before the first of the given bytes, and the text after it. -/
def cut (separator : UInt8) (text : Bytes) : Bytes × Bytes :=
  (text.takeWhile (· ≠ separator), (text.dropWhile (· ≠ separator)).drop 1)

/-- The parameters in the text behind the question mark. One without a name counts for nothing. -/
def readParameters (text : Bytes) : List (Bytes × Bytes) :=
  (text.splitOn ampersand).filterMap fun part =>
    let (name, word) := cut equals part
    if unescape name = [] then none else some (unescape name, unescape word)

/-- The access and the system's name after one more parameter. -/
def heed (wanted : Access × Bytes) (parameter : Bytes × Bytes) :
    Except Trouble (Access × Bytes) :=
  let (name, word) := parameter
  if name = utf8 "vfs" then .ok (wanted.1, word)
  else if name = utf8 "cache" then
    if word = utf8 "shared" ∨ word = utf8 "private" then .ok wanted
    else .error (.unknownCache word)
  else if name = utf8 "mode" then
    match Access.ofWord? word with
    | none => .error (.unknownAccess word)
    | some access =>
      if wanted.1.admits access then .ok (access, wanted.2) else .error (.deniedAccess word)
  else .ok wanted

/-- The text of a link behind the host, which can only be this one. -/
def afterHost (text : Bytes) : Except Trouble Bytes :=
  if [slash, slash].isPrefixOf text then
    let host := (text.drop 2).takeWhile (· ≠ slash)
    if host = [] ∨ host = utf8 "localhost" then .ok ((text.drop 2).dropWhile (· ≠ slash))
    else .error (.unknownHost host)
  else .ok text

/-- The address that is written behind `file:`. -/
def ofLink (text : Bytes) : Except Trouble Address := do
  let text ← afterHost text
  let (path, query) := cut questionMark (text.takeWhile (· ≠ numberSign))
  let parameters := readParameters query
  let (access, name) ← parameters.foldlM heed (.create, utf8 "unix")
  match System.ofWord? name with
  | none => .error (.unknownSystem name)
  | some system => .ok { path := unescape path, parameters, access, system }

def ofText (text : Bytes) : Except Trouble Address :=
  let text := Bytes.untilNul text
  if (utf8 "file:").isPrefixOf text then ofLink (text.drop 5) else .ok { path := text }

/-- The word of the first parameter of a name. -/
def word? (address : Address) (name : String) : Option Bytes :=
  address.parameters.lookup (utf8 name)

/-- The number that a word starts with, if a machine word of 31 bits holds it, and else zero. -/
def leadingNumber (word : Bytes) : Nat :=
  let value := (word.takeWhile isDigit).foldl (fun n b => n * 10 + (b - 0x30).toNat) 0
  if value < 2147483648 then value else 0

/-- Whether a word says yes: by itself, or by a number with a last byte other than zero. -/
def saysYes (word : Bytes) : Bool :=
  if word.head?.any isDigit then leadingNumber word % 256 ≠ 0
  else [utf8 "on", utf8 "yes", utf8 "true"].contains (word.map toLower)

def isOn (address : Address) (name : String) : Bool := (address.word? name).any saysYes

end Address

end Unbundle.Ledger.Plain
