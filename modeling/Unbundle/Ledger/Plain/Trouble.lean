import Unbundle.Bytes

namespace Unbundle.Ledger.Plain

/-- Why a ledger cannot be used in the way it is asked for. -/
inductive Trouble where
  | cannotOpen
  | diskError
  | notLedger
  | readOnly
  | locked
  | blockedLog
  | unknownHost (host : Bytes)
  | unknownAccess (word : Bytes)
  | deniedAccess (word : Bytes)
  | unknownCache (word : Bytes)
  | unknownSystem (word : Bytes)
  deriving DecidableEq, Repr

def Trouble.message : Trouble → Bytes
  | cannotOpen => utf8 "unable to open database file"
  | diskError => utf8 "disk I/O error"
  | notLedger => utf8 "file is not a database"
  | readOnly => utf8 "attempt to write a readonly database"
  | locked => utf8 "database is locked"
  | blockedLog => utf8 "locking protocol"
  | unknownHost host => utf8 "invalid uri authority: " ++ host
  | unknownAccess word => utf8 "no such access mode: " ++ word
  | deniedAccess word => utf8 "access mode not allowed: " ++ word
  | unknownCache word => utf8 "no such cache mode: " ++ word
  | unknownSystem word => utf8 "no such vfs: " ++ word

end Unbundle.Ledger.Plain
