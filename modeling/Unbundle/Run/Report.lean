import Unbundle.Output.Policy
import Unbundle.Run.Queue

namespace Unbundle

/-- The numbers of a failed package are all zero. -/
structure PackageReport where
  path : Bytes
  kind : PackageKind
  appId : Bytes := []
  wasSealed : Bool := false
  ok : Bool := false
  error : Bytes := []
  entries : Nat := 0
  written : Nat := 0
  duplicates : Nat := 0
  kept : Nat := 0
  modules : Nat := 0
  bytecodeModules : Nat := 0
  truncatedModules : Nat := 0
  fallbacks : Nat := 0
  unresolved : Nat := 0
  deriving DecidableEq, Repr

namespace PackageReport

def failed (package : Package) (failure : Failure) : PackageReport where
  path := package.path
  kind := package.kind
  error := failure.message

end PackageReport

/-- What is shown of a package as soon as it is done. -/
structure Progress where
  package : Package
  ok : Bool
  entries : Nat
  modules : Nat
  message : Bytes
  deriving DecidableEq, Repr

namespace Progress

def ofReport (report : PackageReport) : Progress where
  package := ⟨report.path, report.kind⟩
  ok := report.ok
  entries := report.entries
  modules := report.modules
  message := report.error

def text (progress : Progress) : Bytes :=
  utf8 progress.package.kind.name ++ utf8 " " ++ progress.package.path ++ utf8 ": " ++
    if progress.ok then
      Bytes.decimal progress.entries ++ utf8 " entries, " ++ Bytes.decimal progress.modules ++
        utf8 " modules"
    else progress.message

end Progress

/-- `abort` tells why a run ended before its time. -/
structure RunReport where
  packages : List PackageReport := []
  ok : Bool := false
  abort : Option Bytes := none
  deriving DecidableEq, Repr

namespace RunReport

def progress (report : RunReport) : List Progress := report.packages.map Progress.ofReport

def failures (report : RunReport) : Nat := report.packages.countP fun package => !package.ok

end RunReport

end Unbundle
