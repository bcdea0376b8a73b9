import EntityWeaver.Diagnostic
import EntityWeaver.Source.Member

/-! The field set of an entity: the fields of its components, each name once.

    Fields come in component order; the first of a name counts and the others are reported. A field is
    hoisted when the base class that the entity extends covers its component and may declare it. In a
    synchronized entity an interpolated field of type `float` gets two shadows, for the value to move
    to and the value to move from; an interpolated field of any other type is reported. -/

namespace EntityWeaver

/-- The shadow field that holds the value to move to. -/
def targetShadow (name : String) : String := name ++ "_target"

/-- The shadow field that holds the value to move from. -/
def lastShadow (name : String) : String := name ++ "_last"

/-- A field of an entity. -/
structure MergedField where
  decl : FieldDecl
  /-- The component that declares the field. -/
  owner : String
  /-- Declared by the base class and inherited. -/
  hoisted : Bool
  deriving Repr, DecidableEq

namespace MergedField

def name (f : MergedField) : String := f.decl.name

/-- The access word of a field. -/
def accessWord (f : FieldDecl) : String :=
  if f.isPrivate then "private" else if f.readOnly then "protected" else "public"

/-- The declaration of the field in the entity. -/
def toSource (f : MergedField) : SourceField where
  name := f.decl.name
  type := f.decl.type
  modifiers := [accessWord f.decl] ++
    (if f.decl.isStatic then "static" :: (if f.decl.modifiers.isFinal then ["final"] else []) else []) ++
    (if f.decl.modifiers.transient then ["transient"] else []) ++
    (if f.decl.modifiers.volatile then ["volatile"] else [])
  initializer := f.decl.initializer
  annotations := f.decl.annotations

end MergedField

/-- The fields of an entity, and the names of those with shadows. -/
structure FieldSet where
  fields : List MergedField := []
  shadowed : List String := []
  deriving Repr, DecidableEq

namespace FieldSet

def get? (s : FieldSet) (name : String) : Option MergedField := s.fields.find? (·.name == name)

/-- The declarations of the fields, in order. -/
def decls (s : FieldSet) : List FieldDecl := s.fields.map (·.decl)

/-- The fields with shadows, by name. -/
def syncValues (s : FieldSet) : List MergedField :=
  (s.shadowed.filterMap s.get?).mergeSort fun a b => a.name ≤ b.name

def isSyncValue (s : FieldSet) (name : String) : Bool := s.syncValues.any (·.name == name)

/-- The declaration of a shadow field. -/
def shadow (name : String) : SourceField :=
  { name, type := "float", modifiers := ["private", "transient"] }

/-- What the entity declares: its own fields and the shadows. -/
def toSource (s : FieldSet) : List SourceField :=
  (s.fields.filter (!·.hoisted)).map MergedField.toSource ++
    s.shadowed.flatMap fun n => [shadow (targetShadow n), shadow (lastShadow n)]

/-- What the merging of fields looks at besides the fields. -/
structure Scope where
  entity : String
  /-- The components that the base class covers, if the entity extends one. -/
  baseMembers : Option (List String)
  synced : Bool
  anchor : Option Anchor
  deriving Repr

/-- One more field of a component: the set with it, and what is wrong with it. -/
def add (scope : Scope) (s : FieldSet) (owner : String) (f : FieldDecl) : FieldSet × List Diagnostic :=
  let report (e : AuthoringError) : List Diagnostic := [.ofError e (f.anchor.or scope.anchor)]
  match s.get? f.name with
  | some first => (s, report (.duplicateField scope.entity f.name first.owner owner))
  | none =>
    let covered := scope.baseMembers.any (·.contains owner)
    let fields := s.fields ++ [⟨f, owner, covered && f.isHoistable⟩]
    if scope.synced && f.isSyncValue then
      if f.type = "float" then (⟨fields, s.shadowed ++ [f.name]⟩, [])
      else ({ s with fields }, report (.nonFloatSyncField scope.entity f.name f.type))
    else ({ s with fields }, [])

/-- The fields of components with their owners, in order; imported ones are left out. -/
def owned (components : List ComponentDecl) : List (String × FieldDecl) :=
  components.flatMap fun c => (c.fields.filter (!·.imported)).map (c.name, ·)

/-- The set with more fields, and the reports so far with theirs. -/
def addAll (scope : Scope) : FieldSet × List Diagnostic → List (String × FieldDecl) →
    FieldSet × List Diagnostic :=
  List.foldl fun (s, reports) (owner, f) =>
    let (s', more) := s.add scope owner f
    (s', reports ++ more)

/-- The field set of components, and what is wrong with it. -/
def merge (scope : Scope) (components : List ComponentDecl) : FieldSet × List Diagnostic :=
  addAll scope ({}, []) (owned components)

end FieldSet

end EntityWeaver
