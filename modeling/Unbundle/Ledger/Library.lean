import Unbundle.Disk.Basic
import Unbundle.Ledger.Transaction

namespace Unbundle.Ledger

/-- A ledger is opened by its address, for the calls that follow, and closed. All that comes of it is
told by the disk on which it was opened and the calls that were made since. -/
structure Library where
  /-- Why the ledger of an address cannot be opened, if it cannot. -/
  refuses? : Disk → Bytes → Option Bytes
  /-- Why the next call fails, if it does. -/
  answer : Disk → Bytes → List Call → Call → Option Bytes
  /-- The tables of an open ledger, if they can be read. -/
  select : Disk → Bytes → List Call → Option Tables
  close : Disk → Bytes → List Call → Disk
  /-- The places of the files of a ledger, the ledger itself first. -/
  files : Place → Bytes → List Place
  /-- The tables in the file of a ledger. -/
  stored? : Bytes → Option Tables

end Unbundle.Ledger
