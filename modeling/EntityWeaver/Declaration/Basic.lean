import EntityWeaver.Signature
import EntityWeaver.Text.Decimal

/-! Declarations: the records an author writes.

    Components declare fields and methods; a blueprint selects components for one generated entity; a
    pointer names a hand-written entity type; a contract records the interface of a component that is
    imported. Directives on a method say how it takes part when the methods of one signature are merged.
    A directive that may be given once counts by its first occurrence. -/

namespace EntityWeaver

/-- Where in the authored sources a declaration stands. -/
structure Anchor where
  file : String
  line : UInt32
  deriving Repr, DecidableEq

/-- `file:line`. -/
def Anchor.text (a : Anchor) : String := a.file ++ ":" ++ Text.digits a.line.toNat

/-- Who may use a member. -/
inductive Visibility where
  | publicAccess | protectedAccess | packageAccess | privateAccess
  deriving Repr, DecidableEq

/-- The modifiers of a member; `isOverride` marks a method that overrides one of a contract. -/
structure Modifiers where
  visibility : Visibility := .publicAccess
  isStatic : Bool := false
  isFinal : Bool := false
  isAbstract : Bool := false
  native : Bool := false
  transient : Bool := false
  volatile : Bool := false
  isOverride : Bool := false
  deriving Repr, DecidableEq

def Modifiers.isPrivate (m : Modifiers) : Bool := m.visibility == .privateAccess

/-- How a synchronized value moves between two network updates. -/
inductive Interpolation where
  | linear | angular
  deriving Repr, DecidableEq

/-- How a field takes part in saving and synchronizing. -/
structure SyncFlags where
  interpolate : Option Interpolation := none
  clamped : Bool := false
  noSync : Bool := false
  syncLocal : Bool := false
  noSerialize : Bool := false
  deriving Repr, DecidableEq

/-- A field of a component. -/
structure FieldDecl where
  name : String
  type : String
  modifiers : Modifiers := {}
  initializer : Option String := none
  readOnly : Bool := false
  imported : Bool := false
  sync : SyncFlags := {}
  annotations : List String := []
  anchor : Option Anchor := none
  deriving Repr, DecidableEq

namespace FieldDecl

def isStatic (f : FieldDecl) : Bool := f.modifiers.isStatic

def isPrivate (f : FieldDecl) : Bool := f.modifiers.isPrivate

/-- Visible outside the component and open to change there. -/
def isExposed (f : FieldDecl) : Bool := !f.isStatic && !f.isPrivate && !f.readOnly

/-- Interpolated between network updates. -/
def isSyncValue (f : FieldDecl) : Bool := f.sync.interpolate.isSome

/-- May be declared by a base class that covers the field's owner. -/
def isHoistable (f : FieldDecl) : Bool :=
  !f.isPrivate && !f.isStatic && !f.imported && !f.readOnly

end FieldDecl

/-- Whether an extend directive asks for any of its components or for all of them. -/
inductive ExtendMode where
  | any | all
  deriving Repr, DecidableEq

/-- How a method takes part in merging. -/
inductive Directive where
  /-- The place among the candidates; lower runs first. -/
  | priority (p : Int32)
  /-- Replaces the implementations of lower replace priority. -/
  | replace (p : Int32)
  /-- Deletes the implementation of a component. -/
  | remove (component : String)
  /-- Takes part only beside these components. -/
  | extend (components : List String) (mode : ExtendMode)
  /-- Is called inside another method, before or after a block or the whole. -/
  | insert (target : String) (block : Option String) (after : Bool)
  /-- Decides whether a block or the whole of another method runs. -/
  | wrap (target : String) (block : Option String)
  /-- Runs before the check that guards group membership. -/
  | bypassGroupCheck
  /-- A return in the body ends the whole merged method. -/
  | noBreakBlock
  deriving Repr, DecidableEq

/-- A parameter of a method. -/
structure Parameter where
  name : String
  type : String
  deriving Repr, DecidableEq

/-- A method of a component. -/
structure MethodDecl where
  name : String
  params : List Parameter := []
  returnType : String := voidType
  modifiers : Modifiers := {}
  directives : List Directive := []
  /-- The generated entity supplies the implementation. -/
  internalImpl : Bool := false
  body : Option String := none
  anchor : Option Anchor := none
  deriving Repr, DecidableEq

namespace MethodDecl

/-- A method without parameters or result that has the given body. -/
def ofBody (name body : String) : MethodDecl := { name, body := some body }

def returning (m : MethodDecl) (type : String) : MethodDecl := { m with returnType := type }

def param (m : MethodDecl) (name type : String) : MethodDecl :=
  { m with params := m.params ++ [⟨name, type⟩] }

def directive (m : MethodDecl) (d : Directive) : MethodDecl :=
  { m with directives := m.directives ++ [d] }

/-- The method without its body, marked abstract. -/
def abstracted (m : MethodDecl) : MethodDecl :=
  { m with modifiers := { m.modifiers with isAbstract := true }, body := none }

def signature (m : MethodDecl) : Signature := .ofTypes m.name (m.params.map (·.type))

def isVoid (m : MethodDecl) : Bool := normalType m.returnType == voidType

/-- Without an implementation of its own. -/
def isAbstract (m : MethodDecl) : Bool := m.modifiers.isAbstract || m.modifiers.native

/-- The place among the candidates, zero unless given. -/
def priority (m : MethodDecl) : Int32 :=
  (m.directives.findSome? fun | .priority p => some p | _ => none).getD 0

def replacePriority? (m : MethodDecl) : Option Int32 :=
  m.directives.findSome? fun | .replace p => some p | _ => none

/-- The components whose implementations the method deletes, in order. -/
def removals (m : MethodDecl) : List String :=
  m.directives.filterMap fun | .remove c => some c | _ => none

def extension? (m : MethodDecl) : Option (List String × ExtendMode) :=
  m.directives.findSome? fun | .extend cs mode => some (cs, mode) | _ => none

def bypassesGroupCheck (m : MethodDecl) : Bool := m.directives.contains .bypassGroupCheck

def noBreakBlock (m : MethodDecl) : Bool := m.directives.contains .noBreakBlock

end MethodDecl

/-- A component: fields and methods that entities are composed of. -/
structure ComponentDecl where
  name : String
  /-- The fields are declared by one shared base class. -/
  foundational : Bool := false
  /-- Declared elsewhere; the contract exists already. -/
  imported : Bool := false
  fields : List FieldDecl := []
  methods : List MethodDecl := []
  /-- Interfaces the component extends; those that name components are its dependencies. -/
  markers : List String := []
  /-- Components that must not bring their groups. -/
  excludedGroups : List String := []
  /-- The group that entities with this component join. -/
  group : Option String := none
  imports : List String := []
  anchor : Option Anchor := none
  deriving Repr, DecidableEq

namespace ComponentDecl

def field (c : ComponentDecl) (f : FieldDecl) : ComponentDecl := { c with fields := c.fields ++ [f] }

def method (c : ComponentDecl) (m : MethodDecl) : ComponentDecl :=
  { c with methods := c.methods ++ [m] }

def marker (c : ComponentDecl) (name : String) : ComponentDecl :=
  { c with markers := c.markers ++ [name] }

def inGroup (c : ComponentDecl) (group : String) : ComponentDecl := { c with group := some group }

/-- Whether a method of that signature is declared. -/
def declares (c : ComponentDecl) (s : Signature) : Bool := c.methods.any (·.signature == s)

end ComponentDecl

/-- A selection of components that describes one generated entity type. -/
structure BlueprintDecl where
  name : Option String := none
  components : List String
  serialize : Bool := true
  genIo : Bool := true
  pooled : Bool := false
  /-- The foundational component the blueprint is declared on; its base class is the entity itself. -/
  component : Option String := none
  anchor : Option Anchor := none
  deriving Repr, DecidableEq

/-- A hand-written entity type. -/
structure PointerDecl where
  name : String
  /-- The type has a public static factory. -/
  hasFactory : Bool
  anchor : Option Anchor := none
  deriving Repr, DecidableEq

/-- The name behind the last point. -/
def PointerDecl.simpleName (p : PointerDecl) : String :=
  String.ofList (p.name.toList.reverse.takeWhile (· ≠ '.')).reverse

/-- The existing contract of an imported component. -/
structure ContractDecl where
  name : String
  component : String
  superinterfaces : List String := []
  methods : List MethodDecl := []
  deriving Repr, DecidableEq

end EntityWeaver
