import EntityWeaver.Declaration.Basic

/-! Mistakes of authors, and the diagnostics that report them.

    A mistake is a cause with the names that it concerns; its wording stands in one function. A
    diagnostic is a message with its severity and, if known, the place it concerns. Reporting only
    ever adds to the end of a list, and a run has failed when the list holds an error. -/

namespace EntityWeaver

/-- What can be wrong with components and blueprints. -/
inductive AuthoringError where
  | duplicateField (entity field first second : String)
  | tiedReplace (entity signature : String)
  | doubleRemoval (entity signature component : String)
  | removedSetterOwner (entity signature component field : String)
  | multipleFoundational (entity first second : String)
  | unresolvedComponent (entity component : String)
  | emptyBlueprint (entity : String)
  | multipleNonVoid (entity signature : String)
  | unimplemented (entity signature : String)
  | insertIntoNonVoid (signature : String)
  | wrapNonVoid (signature : String)
  | insertWithParams (component method : String)
  | invalidWrap (component method : String)
  | malformedTarget (component method target : String)
  | missingCodec (entity field type : String)
  | nonFloatSyncField (entity field type : String)
  | missingFactory (name : String)
  | missingContract (entity component : String)
  deriving Repr, DecidableEq

namespace AuthoringError

/-- A name between backquotes. -/
def quoted (name : String) : String := "`" ++ name ++ "`"

/-- The wording of a mistake. -/
def message : AuthoringError → String
  | duplicateField entity field first second =>
    "duplicate field name " ++ quoted field ++ " in " ++ quoted entity ++ " (from " ++ quoted first ++
      " and " ++ quoted second ++ ")"
  | tiedReplace entity signature =>
    "type " ++ entity ++ " has multiple components replacing non-void method " ++ signature ++
      " with similar priorities"
  | doubleRemoval entity signature component =>
    signature ++ " implementation of " ++ quoted component ++
      " is already removed by another method in " ++ entity
  | removedSetterOwner entity signature component field =>
    signature ++ " in " ++ entity ++ " removes " ++ quoted component ++
      ", which backs the implicit setter for " ++ quoted field
  | multipleFoundational entity first second =>
    "blueprint " ++ entity ++ " can't have more than one base class (" ++ quoted first ++ " and " ++
      quoted second ++ ")"
  | unresolvedComponent entity component =>
    "blueprint " ++ entity ++ " references unknown component " ++ quoted component
  | emptyBlueprint entity => "blueprint " ++ entity ++ " resolves to no components"
  | multipleNonVoid entity signature =>
    "type " ++ entity ++ " has multiple components implementing non-void method " ++ signature
  | unimplemented entity signature =>
    signature ++ " is an abstract method and must be implemented in some component of " ++ entity
  | insertIntoNonVoid signature =>
    "method " ++ signature ++ " is not void; no methods can insert into it"
  | wrapNonVoid signature => "method " ++ signature ++ " is not void; no methods can wrap it"
  | insertWithParams component method =>
    "insert method " ++ quoted (component ++ "." ++ method) ++ " must not have parameters"
  | invalidWrap component method =>
    "wrap method " ++ quoted (component ++ "." ++ method) ++
      " must be a parameterless boolean method"
  | malformedTarget component method target =>
    quoted (component ++ "." ++ method) ++ " targets malformed signature " ++ quoted target
  | missingCodec entity field type =>
    "no IO handler for type " ++ quoted type ++ " of field " ++ quoted field ++ " in " ++ entity
  | nonFloatSyncField entity field type =>
    "sync field " ++ quoted field ++ " in " ++ entity ++ " must be float, found " ++ quoted type
  | missingFactory name =>
    "missing " ++ quoted ("public static " ++ name ++ " create()") ++ " on pointer type " ++ name
  | missingContract entity component =>
    "failed to implement contract for " ++ quoted component ++ " in " ++ entity

end AuthoringError

inductive Severity where
  | warning | error
  deriving Repr, DecidableEq

/-- One reported message. -/
structure Diagnostic where
  severity : Severity
  message : String
  anchor : Option Anchor
  deriving Repr, DecidableEq

namespace Diagnostic

/-- A message of error severity. -/
def error (message : String) (anchor : Option Anchor) : Diagnostic := ⟨.error, message, anchor⟩

/-- A message of warning severity. -/
def warning (message : String) (anchor : Option Anchor) : Diagnostic := ⟨.warning, message, anchor⟩

/-- The report of a mistake. -/
def ofError (e : AuthoringError) (anchor : Option Anchor) : Diagnostic := error e.message anchor

def isError (d : Diagnostic) : Bool := d.severity == .error

/-- The place, the severity and the message. -/
def text (d : Diagnostic) : String :=
  (d.anchor.elim "" (·.text ++ ": ")) ++
    (match d.severity with
      | .warning => "warning"
      | .error => "error") ++ ": " ++ d.message

/-- How many of the diagnostics are errors. -/
def errorCount (ds : List Diagnostic) : Nat := ds.countP isError

end Diagnostic

end EntityWeaver
