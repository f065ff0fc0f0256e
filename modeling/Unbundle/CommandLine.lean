import Unbundle.Ledger.Reading
import Unbundle.Run.Execution
import Unbundle.Settings.Text

namespace Unbundle.CommandLine

/-- What the arguments ask for. Empty texts stand for what was not given. -/
structure Options where
  input : Bytes := []
  output : Bytes := []
  settingsPath : Bytes := []
  appId : Bytes := []
  ledgerPath : Bytes := []
  policy : OverwritePolicy := .merge
  quiet : Bool := false
  deriving DecidableEq, Repr

/-- Why nothing is run. -/
inductive Refusal where
  | help
  | noInput
  | missingValue (option : String)
  | unknownOption (argument : Bytes)
  | unexpectedArgument (argument : Bytes)
  deriving DecidableEq, Repr

/-- The options that take a value: their spellings, and where the value goes. -/
def valueOption? (argument : Bytes) : Option (String × (Options → Bytes → Options)) :=
  if argument ∈ [utf8 "-o", utf8 "--out"] then
    some ("--out", fun options value => { options with output := value })
  else if argument = utf8 "--appid" then
    some ("--appid", fun options value => { options with appId := value })
  else if argument = utf8 "--config" then
    some ("--config", fun options value => { options with settingsPath := value })
  else if argument = utf8 "--meta-db" then
    some ("--meta-db", fun options value => { options with ledgerPath := value })
  else none

/-- The options that stand alone. -/
def flag? (argument : Bytes) : Option (Options → Options) :=
  if argument = utf8 "--clear" then some fun options => { options with policy := .clear }
  else if argument = utf8 "--merge" then some fun options => { options with policy := .merge }
  else if argument = utf8 "--keep" then some fun options => { options with policy := .keep }
  else if argument = utf8 "--quiet" then some fun options => { options with quiet := true }
  else none

/-- An argument that is no option: the input, of which there is one. -/
def addInput (options : Options) (argument : Bytes) : Except Refusal Options :=
  if argument.head? = some Ascii.minus then .error (.unknownOption argument)
  else if options.input = [] then .ok { options with input := argument }
  else .error (.unexpectedArgument argument)

/-- Reads arguments from the left; the first that cannot be followed decides. -/
def readArguments (options : Options) : List Bytes → Except Refusal Options
  | [] => if options.input = [] then .error .noInput else .ok options
  | argument :: rest =>
    match valueOption? argument, rest with
    | some (option, _), [] => .error (.missingValue option)
    | some (_, set), value :: rest => readArguments (set options value) rest
    | none, rest =>
      match flag? argument with
      | some set => readArguments (set options) rest
      | none =>
        if argument ∈ [utf8 "-h", utf8 "--help"] then .error .help
        else
          match addInput options argument with
          | .error refusal => .error refusal
          | .ok options => readArguments options rest

def usage (program : Bytes) : List Bytes :=
  [utf8 "Usage:",
   utf8 "  " ++ program ++ utf8 " <package.wxapkg | package_dir> [options]",
   [],
   utf8 "Options:",
   utf8 "  -o, --out <dir>        output directory (default: __OUTPUT__ next to the input)",
   utf8 "  --clear                remove the output directory before writing",
   utf8 "  --merge                overwrite produced files, keep others (default)",
   utf8 "  --keep                 never overwrite existing files",
   utf8 "  --appid <id>           app id for encrypted packages",
   utf8 "  --config <file.json>   load settings from a JSON file",
   utf8 "  --meta-db <file.db>    record recovered modules in an SQLite database",
   utf8 "  --quiet                only print warnings and errors"]

namespace Refusal

def lines (program : Bytes) : Refusal → List Bytes
  | help | noInput => usage program
  | missingValue option => [utf8 "Missing value for " ++ utf8 option]
  | unknownOption argument => [utf8 "Unknown option: " ++ argument]
  | unexpectedArgument argument => [utf8 "Unexpected argument: " ++ argument]

/-- Asking for help is no error. -/
def exitCode : Refusal → UInt32
  | help => 0
  | _ => 1

end Refusal

/-- The content of a settings file; a directory counts as an empty one. -/
def readSettingsFile (disk : Disk) (path : Bytes) : Except Bytes Bytes :=
  match disk.status path with
  | .error _ => .error (utf8 "Failed to open config file: " ++ path)
  | .ok .directory => .ok []
  | .ok (.file content) => .ok content

/-- The settings after a file has been read over them. -/
def loadSettings (settings : Settings) (disk : Disk) (path : Bytes)
    (json : Json.Library := .plain) : Except Bytes Settings :=
  match readSettingsFile disk path with
  | .error message => .error message
  | .ok text => (settings.readText text json).mapError fun defect => defect.message

/-- The settings that the options ask for. -/
def Options.settings (options : Options) (disk : Disk) (json : Json.Library := .plain) :
    Except Bytes Settings :=
  let loaded :=
    if options.settingsPath = [] then .ok {} else loadSettings {} disk options.settingsPath json
  loaded.map fun settings =>
    { settings with
      appId := if options.appId = [] then settings.appId else options.appId
      ledgerPath := if options.ledgerPath = [] then settings.ledgerPath else options.ledgerPath }

/-- The output directory: where the options do not name one, inside an input directory and beside
anything else. -/
def Options.root (options : Options) (disk : Disk) : Except Failure Bytes :=
  if options.output ≠ [] then .ok options.output
  else
    let input := disk.absolute options.input
    let inside := fun directory => Path.below directory (utf8 "__OUTPUT__")
    match disk.status input with
    | .ok .directory => .ok (inside input)
    | .ok (.file _) => .ok (inside (Path.parent input))
    | .error problem =>
      if problem.isAbsence then .ok (inside (Path.parent input))
      else .error (.disk .status problem input)

/-- One run below an output root, in a fresh context, and whether it went well. -/
def runWith (options : Options) (settings : Settings) (root : Bytes) (disk : Disk)
    (platform : Platform := {}) : Bool × Workspace :=
  let space : Workspace :=
    { disk, context := { settings }, journal := { quiet := options.quiet }, platform }
  let space := space.log .info (utf8 "Input:  " ++ options.input)
  let space := space.log .info
    (utf8 "Output: " ++ root ++ utf8 " (" ++ utf8 options.policy.name ++ utf8 ")")
  let (report, space) := space.unpack options.policy root options.input
  let warnings := space.context.warnings.length
  (report.ok,
    if warnings = 0 then space
    else space.log .warning (Bytes.decimal warnings ++ utf8 " warning(s) during unpack"))

/-- What a program of the given name does with its arguments: its exit code, and the disk and the
journal it leaves. There is no exit code if the input cannot even be looked at. -/
def run (program : Bytes) (arguments : List Bytes) (disk : Disk) (platform : Platform := {}) :
    Except Failure UInt32 × Workspace :=
  match readArguments {} arguments with
  | .error refusal =>
    (.ok refusal.exitCode,
      (refusal.lines program).foldl (fun space line => space.log .plain line) { disk, platform })
  | .ok options =>
    match options.settings disk platform.json with
    | .error message => (.ok 1, ({ disk, platform } : Workspace).log .error message)
    | .ok settings =>
      match options.root disk with
      | .error failure => (.error failure, { disk, platform })
      | .ok root =>
        match runWith options settings root disk platform with
        | (ok, space) => (.ok (if ok then 0 else 1), space)

end Unbundle.CommandLine
