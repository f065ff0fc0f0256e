import Unbundle.Bytes

namespace Unbundle

/-- How far reading a file gets. -/
inductive ReadFault where
  | notOpened | unsized | cut
  deriving DecidableEq, Repr

/-- A file that is not read, because it is no regular one or because of a fault. -/
structure Unread where
  path : Bytes
  fault? : Option ReadFault := none
  deriving DecidableEq, Repr

instance : Coe Bytes Unread := ⟨fun path => { path }⟩

def Unread.message (file : Unread) : Bytes :=
  let reason := match file.fault? with
    | none => "Not a regular file: "
    | some .notOpened => "Cannot open file: "
    | some .unsized => "Cannot determine size of file: "
    | some .cut => "Cannot read file: "
  utf8 reason ++ file.path

/-- How far writing a file gets. -/
inductive WriteFault where
  | notOpened | cut
  deriving DecidableEq, Repr

/-- A file that is not written, or not to its end. -/
structure Unwritten where
  path : Bytes
  fault : WriteFault := .notOpened
  deriving DecidableEq, Repr

def Unwritten.message (file : Unwritten) : Bytes :=
  let reason := match file.fault with
    | .notOpened => "Cannot write to "
    | .cut => "Write failed for "
  utf8 reason ++ file.path

/-- What a device makes of the files on it. Whatever it does, it does again under the same path with
the same content. -/
structure Device where
  /-- How many bytes of a content reach the file under a path, if writing them fails. -/
  cut? : Bytes → Bytes → Option Nat := fun _ _ => none
  /-- What goes wrong when the file under a path is read. -/
  fault? : Bytes → Option ReadFault := fun _ => none

namespace Device

/-- As much of a content as reaches the file under a path. -/
def taken (device : Device) (path content : Bytes) : Bytes :=
  match device.cut? path content with
  | none => content
  | some count => content.take count

theorem taken_of_none {device : Device} {path content : Bytes}
    (whole : device.cut? path content = none) : device.taken path content = content := by
  rw [taken, whole]

end Device

end Unbundle
