import Unbundle.Container.Basic

/-!
Reading the index of a container. Every way in which a layout can be wrong is a cause of its own,
and the first one met in reading order is reported.
-/

namespace Unbundle.Container

inductive Defect where
  | tooSmall (size : Nat)
  | badMagic
  | tooManyEntries (count limit : Nat)
  | indexTooShort (count : Nat)
  | sectionsTooLong
  | badTerminator
  | recordTruncated (number : Nat)
  | recordOverrun (number : Nat)
  | outsideData (name : Bytes)
  | unsafeName (number : Nat) (name : Bytes)
  deriving DecidableEq, Repr

def Defect.message : Defect → Bytes
  | tooSmall size => utf8 "container too small: " ++ Bytes.decimal size ++ utf8 " bytes"
  | badMagic => utf8 "bad container magic"
  | tooManyEntries count limit =>
    utf8 "entry count " ++ Bytes.decimal count ++ utf8 " exceeds limit " ++ Bytes.decimal limit
  | indexTooShort count =>
    utf8 "entry count " ++ Bytes.decimal count ++ utf8 " does not fit index table"
  | sectionsTooLong => utf8 "declared sections exceed container size"
  | badTerminator => utf8 "bad index terminator"
  | recordTruncated number => utf8 "index record " ++ Bytes.decimal number ++ utf8 " truncated"
  | recordOverrun number =>
    utf8 "index record " ++ Bytes.decimal number ++ utf8 " overruns index table"
  | outsideData name => utf8 "entry '" ++ name ++ utf8 "' lies outside the data section"
  | unsafeName number name =>
    utf8 "entry " ++ Bytes.decimal number ++ utf8 " has unsafe name '" ++ name ++ utf8 "'"

/-- The word at an offset; zero where no four bytes are left. -/
def wordAt (bytes : Bytes) (offset : Nat) : Nat := (Word32.read? (bytes.drop offset)).getD 0

structure Header where
  indexLength : Nat
  dataLength : Nat
  count : Nat
  deriving DecidableEq, Repr

namespace Header

def read (bytes : Bytes) : Header := ⟨wordAt bytes 1, wordAt bytes 5, wordAt bytes 9⟩

/-- Where the data section starts: past header, index and last mark. -/
def dataBase (header : Header) : Nat := headerLength + header.indexLength + 1

end Header

/-- The record at the front of the index, and the index after it. -/
def readRecord (header : Header) (number : Nat) (index : Bytes) : Except Defect (Entry × Bytes) :=
  if index.length < 4 then .error (.recordTruncated number)
  else
    let nameLength := wordAt index 0
    let rest := index.drop 4
    if rest.length < nameLength + 8 then .error (.recordOverrun number)
    else
      let name := rest.take nameLength
      let offset := wordAt rest nameLength
      let length := wordAt rest (nameLength + 4)
      if header.dataLength < offset + length then .error (.outsideData name)
      else
        match Path.canonical? name with
        | none => .error (.unsafeName number name)
        | some path => .ok (⟨path, header.dataBase + offset, length⟩, rest.drop (nameLength + 8))

/-- As many records as are left to read, the next one having the given number. -/
def readRecords (header : Header) (left number : Nat) (index : Bytes) :
    Except Defect (List Entry) :=
  match left with
  | 0 => .ok []
  | left + 1 => do
    let (entry, rest) ← readRecord header number index
    let entries ← readRecords header left (number + 1) rest
    .ok (entry :: entries)

/-- The entries of a container in the order of its index. -/
def parse (limit : Nat) (bytes : Bytes) : Except Defect (List Entry) :=
  if bytes.length < headerLength + 1 then .error (.tooSmall bytes.length)
  else if bytes.head? ≠ some firstMark then .error .badMagic
  else
    let header := Header.read bytes
    if limit < header.count then .error (.tooManyEntries header.count limit)
    else if header.indexLength < shortestRecord * header.count then
      .error (.indexTooShort header.count)
    else if bytes.length < header.dataBase + header.dataLength then .error .sectionsTooLong
    else if bytes[headerLength + header.indexLength]? ≠ some lastMark then .error .badTerminator
    else
      readRecords header header.count 0 ((bytes.drop headerLength).take header.indexLength)

end Unbundle.Container
