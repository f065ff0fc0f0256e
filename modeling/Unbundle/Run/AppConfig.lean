import Unbundle.Container.Encoder
import Unbundle.Json.Plain

namespace Unbundle.AppConfig

open Json (Value)

def fileName : Bytes := utf8 "app-config.json"

/-- The file that the part common to all pages goes to. -/
def commonFileName : Bytes := utf8 "app.json"

inductive Defect where
  | malformed (reason : Bytes)
  | notObject
  | layout (reason : Bytes)
  deriving DecidableEq, Repr

def Defect.message : Defect → Bytes
  | malformed reason => utf8 "Failed to parse app-config.json: " ++ reason
  | notObject => utf8 "app-config.json is not a JSON object"
  | layout reason => utf8 "Unexpected layout in app-config.json: " ++ reason

/-- What compiled pages are named with at the end. -/
def pageEnding : Bytes := utf8 ".html"

def withoutEnding (name : Bytes) : Bytes := (pageEnding.isSuffixOf? name).getD name

/-- A name in its canonical form, empty where it has none. -/
def pathOf (name : Bytes) : Bytes := (Path.canonical? name).getD []

/-- The root of a subpackage as its pages have it in front of their names. -/
def rootOf (name : Bytes) : Bytes :=
  if pathOf name = [] then [] else pathOf name ++ [Ascii.slash]

/-- A page of a subpackage by its name within it. Only texts name pages. -/
def relativePage? (root : Bytes) : Value → Option Value
  | .text name =>
    let path := pathOf name
    some (.text (withoutEnding ((root.isPrefixOf? path).getD path)))
  | _ => none

/-- A subpackage with its pages named within it. -/
def relativeSubpackage (subpackage : Value) : Value :=
  match subpackage.field? "root", subpackage.field? "pages" with
  | some (.text root), some (.array pages) =>
    subpackage.set (utf8 "pages") (.array (pages.filterMap (relativePage? (rootOf root))))
  | _, _ => subpackage

/-- Subpackages go by either of two names. -/
def subpackageNames : List Bytes := [utf8 "subPackages", utf8 "subpackages"]

/-- The fields that the common part does not take over. -/
def otherNames : List Bytes := [utf8 "page", utf8 "global", utf8 "entryPagePath"]

/-- The common part with one more field taken over. -/
def takeOver (common : Value) (field : Bytes × Value) : Value :=
  if field.1 ∈ otherNames then common
  else
    match field.2 with
    | .array items =>
      if field.1 ∈ subpackageNames then
        common.set (utf8 "subPackages") (.array (items.map relativeSubpackage))
      else common.set field.1 field.2
    | _ => common.set field.1 field.2

/-- A page without the ending of its name. -/
def withoutPageEnding : Value → Value
  | .text name => .text (withoutEnding name)
  | page => page

def withPages (common : Value) : Value :=
  match common.field? "pages" with
  | some (.array pages) => common.set (utf8 "pages") (.array (pages.map withoutPageEnding))
  | _ => common

def withWindow (config common : Value) : Value :=
  match (config.field? "global").bind (Value.field? "window") with
  | some window => common.set (utf8 "window") window
  | none => common

def withEntryPage (config common : Value) : Value :=
  match config.field? "entryPagePath" with
  | some (.text name) => common.set (utf8 "entryPagePath") (.text (withoutEnding name))
  | _ => common

/-- The part common to all pages. -/
def common (fields : List (Bytes × Value)) : Value :=
  let config := Value.object fields
  withEntryPage config (withWindow config (withPages (fields.foldl takeOver (.object []))))

/-- The settings of a page's own: its window, and the components that it uses. -/
def ofPage (page : Value) : Value :=
  let window := match page.field? "window" with
    | some (.object fields) => Value.object fields
    | _ => .object []
  match page.field? "usingComponents" with
  | some components => window.set (utf8 "usingComponents") components
  | none => window

/-- The file of a page and its settings, if it has any and a name that can be used. -/
def pageFile? (page : Bytes × Value) : Option (Bytes × Value) :=
  let path := pathOf (withoutEnding page.1)
  match page.2, ofPage page.2 with
  | .object _, .object (first :: others) =>
    if path = [] then none else some (path ++ utf8 ".json", .object (first :: others))
  | _, _ => none

/-- The pages with files of their own. -/
def pageFiles (config : Value) : List (Bytes × Value) :=
  match config.field? "page" with
  | some (.object pages) => pages.filterMap pageFile?
  | _ => []

/-- A file with a value written out. -/
def toFile (json : Json.Library) (part : Bytes × Value) : Except Defect Container.File :=
  match json.dump part.2 with
  | .error reason => .error (.layout reason)
  | .ok content => .ok ⟨part.1, content⟩

/-- The files of a configuration, the common one first. -/
def split (text : Bytes) (json : Json.Library := .plain) : Except Defect (List Container.File) :=
  match json.parse text with
  | .error reason => .error (.malformed reason)
  | .ok (.object fields) =>
    ((commonFileName, common fields) :: pageFiles (.object fields)).mapM (toFile json)
  | .ok _ => .error .notObject

end Unbundle.AppConfig
