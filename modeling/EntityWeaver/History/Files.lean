import EntityWeaver.Files.Basic
import EntityWeaver.History.Basic
import EntityWeaver.Json.Record

/-! Histories kept in files.

    An entity has a directory below the root, and each of its revisions a file there that is named for
    the version and holds the layout as JSON. What is in the directory besides is passed over: only a
    name that is a version number with the extension `json` counts. A number can be written in several
    ways; revisions with the same one keep the order in which the directory lists their files. -/

namespace EntityWeaver

open Json (Value)

namespace LayoutField

def fieldNames : List String := ["name", "type"]

def toJson (f : LayoutField) : Value := .object [("name", .text f.name), ("type", .text f.type)]

def ofJson? (v : Value) : Option LayoutField := do
  let r ← v.members? fieldNames
  return { name := ← r.required "name" (·.text?), type := ← r.required "type" (·.text?) }

end LayoutField

namespace Revision

/-- A layout as the text of a file. -/
def renderLayout (fields : List LayoutField) : String := (Value.list LayoutField.toJson fields).pretty

/-- The layout that the text of a file spells. -/
def layoutOfText? (text : String) : Option (List LayoutField) :=
  (Value.ofText? text).bind (·.list? LayoutField.ofJson?)

/-- The version that a number denotes; a plus sign may stand in front of it. -/
def versionOf? (number : String) : Option UInt16 :=
  let digits := match number.toList with
    | '+' :: rest => rest
    | cs => cs
  ((Text.natural? digits).filter (· < 0x10000)).map .ofNat

/-- The version that a file is named for. -/
def versionOfFile? (name : String) : Option UInt16 :=
  match Path.splitExtension name with
  | (stem, some "json") => versionOf? stem
  | _ => none

/-- The name of the file of a version. -/
def fileName (version : UInt16) : String := Text.digits version.toNat ++ ".json"

end Revision

namespace HistoryStore

variable {m : Type → Type} [Monad m]

/-- The revision in one file of an entity's directory, if the file holds one. -/
def readRevision (fs : FileSystem m) (directory name : String) :
    m (Except HistoryError (Option Revision)) := do
  match Revision.versionOfFile? name with
  | none => return .ok none
  | some version =>
    let path := Path.join directory name
    match ← fs.readText path with
    | .error reason => return .error (.io path reason)
    | .ok text =>
      match Revision.layoutOfText? text with
      | none => return .error (.malformed path "not a list of fields")
      | some fields => return .ok (some ⟨version, fields⟩)

/-- The revisions in several files, up to the first failure. -/
def readRevisions (fs : FileSystem m) (directory : String) :
    List String → m (Except HistoryError (List Revision))
  | [] => return .ok []
  | name :: rest => do
    match ← readRevision fs directory name with
    | .error e => return .error e
    | .ok found =>
      match ← readRevisions fs directory rest with
      | .error e => return .error e
      | .ok revisions => return .ok (found.toList ++ revisions)

/-- The store of histories in the files below a root. -/
def inFiles (fs : FileSystem m) (root : String) : HistoryStore m where
  load entity := do
    let directory := Path.join root entity
    if !(← fs.isDirectory directory) then return .ok []
    match ← fs.list directory with
    | .error reason => return .error (.io directory reason)
    | .ok names => return (← readRevisions fs directory names).map Revision.sort
  store entity r := do
    let directory := Path.join root entity
    match ← fs.createDirectories directory with
    | .error reason => return .error (.io directory reason)
    | .ok () =>
      let path := Path.join directory (Revision.fileName r.version)
      match ← fs.writeText path (Revision.renderLayout r.fields) with
      | .error reason => return .error (.io path reason)
      | .ok () => return .ok ()

end HistoryStore

end EntityWeaver
