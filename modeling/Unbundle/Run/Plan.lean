import Unbundle.Run.AppConfig
import Unbundle.Run.Workspace

/-!
What is to be done with the entries of a package, in order, before anything is done. The plan
depends on the package and the settings alone, and on how JSON is read and written.
-/

namespace Unbundle

/-- Where an offered file comes from. -/
inductive Origin where
  | entry | fallback | module | config
  deriving DecidableEq, Repr

inductive Action where
  | complain (text : Bytes)
  | warn (source message : Bytes)
  | write (origin : Origin) (path content : Bytes)
  | register (record : ScriptModule)
  deriving DecidableEq

namespace Action

def origin? : Action → Option Origin
  | write origin _ _ => some origin
  | _ => none

def module? : Action → Option ScriptModule
  | register record => some record
  | _ => none

end Action

/-- The path that a module's body is written to. -/
def ScriptModule.outputPath (record : ScriptModule) : Bytes :=
  match record.form with
  | .source => record.path
  | .bytecode => record.path ++ utf8 ".bc"

/-- A script whose file name is one of those that bundles have. -/
def Settings.isBundle (settings : Settings) (entry : Container.Entry) : Bool :=
  entry.kind = .script && Path.lastSegment entry.path ∈ settings.bundleNames

namespace Plan

def ofModule (source : Bytes) (record : ScriptModule) : List Action :=
  (if record.truncated then
    [.warn source (utf8 "module " ++ record.path ++ utf8 " is truncated at end of input")]
  else []) ++
    [.write .module record.outputPath record.body, .register record]

def skippedWarning (source : Bytes) (skipped : List CallSite.Defect) : List Action :=
  match skipped with
  | [] => []
  | first :: _ =>
    [.warn source (Bytes.decimal skipped.length ++
      utf8 " registration call(s) not recognized, first: " ++ first.message)]

/-- A bundle without any module is kept as it stands, another one goes into its modules. -/
def ofBundle (names : List Bytes) (source path text : Bytes) : List Action :=
  let split := Bundle.split names text
  if split.fallback then
    [.warn source (utf8 "no module registrations recognized, keeping the bundle verbatim"),
     .write .fallback path text]
  else skippedWarning source (split.skipped.filterMap Bundle.Item.defect?) ++
    split.modules.flatMap (ofModule source)

/-- The files of an app's configuration, the common one only if the package has none itself. -/
def ofConfig (json : Json.Library) (source : Bytes) (hasCommon : Bool) (text : Bytes) :
    List Action :=
  match AppConfig.split text json with
  | .error defect =>
    [.complain defect.message, .warn source (utf8 "could not split " ++ AppConfig.fileName)]
  | .ok files =>
    (files.filter fun file => !(hasCommon && file.name = AppConfig.commonFileName)).map
      fun file => .write .config file.name file.content

def ofEntry (json : Json.Library) (settings : Settings) (package : Bytes) (hasCommon : Bool)
    (bytes : Bytes) (entry : Container.Entry) : List Action :=
  let content := entry.content bytes
  if settings.isBundle entry then
    ofBundle settings.registrationNames (package ++ utf8 ":" ++ entry.path) entry.path content
  else
    .write .entry entry.path content ::
      if entry.path = AppConfig.fileName then ofConfig json package hasCommon content else []

/-- All that a package asks for. -/
def ofEntries (json : Json.Library) (settings : Settings) (package bytes : Bytes)
    (entries : List Container.Entry) : List Action :=
  let hasCommon := entries.any fun entry => entry.path = AppConfig.commonFileName
  entries.flatMap (ofEntry json settings package hasCommon bytes)

def modules (plan : List Action) : List ScriptModule := plan.filterMap Action.module?

def fallbacks (plan : List Action) : Nat := (plan.filterMap Action.origin?).count .fallback

end Plan

end Unbundle
