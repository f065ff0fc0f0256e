import Unbundle.Container.Basic

namespace Unbundle.Container

structure File where
  name : Bytes
  content : Bytes
  deriving DecidableEq, Repr

/-- The records of files whose contents start at the given place of the data section. -/
def index (start : Nat) : List File → Bytes
  | [] => []
  | file :: files =>
    Word32.encode file.name.length ++ file.name ++ Word32.encode start ++
      Word32.encode file.content.length ++ index (start + file.content.length) files

def data (files : List File) : Bytes := files.flatMap File.content

def encode (files : List File) : Bytes :=
  firstMark :: Word32.encode (index 0 files).length ++ Word32.encode (data files).length ++
    Word32.encode files.length ++ index 0 files ++ lastMark :: data files

end Unbundle.Container
