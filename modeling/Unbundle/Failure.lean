import Unbundle.Container.Parser
import Unbundle.Disk.Lookup
import Unbundle.Output.Device
import Unbundle.Sealed.Keyring

namespace Unbundle

/-- What was tried on the disk when it went wrong. -/
inductive Attempt where
  | makeDirectories | status | listDirectory
  deriving DecidableEq, Repr

def Attempt.message : Attempt → Bytes
  | makeDirectories => utf8 "cannot create directories"
  | status => utf8 "status"
  | listDirectory => utf8 "directory iterator cannot open directory"

inductive Failure where
  | format (defect : Container.Defect)
  | key (defect : Sealed.KeyDefect)
  | sealing (defect : Sealed.Defect)
  | collision (path : Bytes)
  | notRegular (file : Unread)
  | cannotWrite (file : Unwritten)
  | disk (attempt : Attempt) (problem : Disk.Problem) (path : Bytes)
  deriving DecidableEq, Repr

namespace Failure

def fullMessage : Failure → Bytes
  | format defect => defect.message
  | key defect => defect.message
  | sealing defect => defect.message
  | collision path => utf8 "conflicting content for " ++ path
  | notRegular file => file.message
  | cannotWrite file => file.message
  | disk attempt problem path =>
    utf8 "filesystem error: " ++ attempt.message ++ utf8 ": " ++ problem.message ++
      utf8 " [" ++ path ++ utf8 "]"

/-- A message is shown up to its first NUL. -/
def message (failure : Failure) : Bytes := Bytes.untilNul failure.fullMessage

def ofOpenDefect : Sealed.OpenDefect → Failure
  | .key defect => .key defect
  | .body defect => .sealing defect

/-- Whether two writes of the run disagree, which no policy passes over. -/
def isCollision : Failure → Bool
  | collision _ => true
  | _ => false

end Failure

end Unbundle
