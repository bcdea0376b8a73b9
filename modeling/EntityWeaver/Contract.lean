import EntityWeaver.Project

/-! Contracts: the interface through which a component is known.

    The contract of a component has its public instance methods, except those that only override one
    of another contract, and accessors for the fields others may see: one that returns the field, and
    one that sets it where it can be set. A method of the component with an accessor's signature takes
    its place. A contract extends the contracts of all dependencies and every marker that is no
    component. An imported component has the contract recorded for it, or none. -/

namespace EntityWeaver

/-- A method of a contract. -/
structure ContractMethod where
  name : String
  returnType : String
  params : List Parameter := []
  annotations : List String := []
  deriving Repr, DecidableEq

namespace ContractMethod

def ofMethod (m : MethodDecl) : ContractMethod :=
  { name := m.name, returnType := m.returnType, params := m.params }

def signature (m : ContractMethod) : Signature := .ofTypes m.name (m.params.map (·.type))

def isVoid (m : ContractMethod) : Bool := m.returnType == voidType

/-- The method as declared in the interface. -/
def toSource (m : ContractMethod) : SourceMethod where
  name := m.name
  returnType := some m.returnType
  params := m.params.map fun p => ⟨p.type, p.name⟩
  modifiers := ["public", "abstract"]
  annotations := m.annotations
  body := none

end ContractMethod

/-- The contract of a component. -/
structure Contract where
  name : String
  component : String
  superinterfaces : List String
  methods : List ContractMethod
  deriving Repr, DecidableEq

namespace Contract

/-- A contract as recorded. -/
def ofDecl (c : ContractDecl) : Contract :=
  ⟨c.name, c.component, c.superinterfaces, c.methods.map .ofMethod⟩

/-- The interface of a contract. -/
def toSource (c : Contract) : TypeDef :=
  c.superinterfaces.foldl .addSuperinterface
    { kind := .interface, name := c.name, annotations := [TypeDef.suppressWarnings]
      methods := c.methods.map ContractMethod.toSource }

@[simp] theorem name_toSource (c : Contract) : c.toSource.name = c.name :=
  TypeDef.name_foldl_addSuperinterface _ _

/-- The methods that a contract can have: public and not static. -/
def visibleMethods (c : ComponentDecl) : List MethodDecl :=
  c.methods.filter fun m => !(m.modifiers.isPrivate || m.modifiers.isStatic)

/-- The fields that a contract gives access to: public, not static and the component's own. -/
def visibleFields (c : ComponentDecl) : List FieldDecl :=
  c.fields.filter fun f => !(f.isPrivate || f.isStatic || f.imported)

/-- The annotations that an accessor takes over from its field. -/
def accessorAnnotations (f : FieldDecl) : List String :=
  f.annotations.filter fun a =>
    ["Null", "Deprecated"].any fun word => Text.occursIn word.toList a.toList

/-- The accessors of a field, beside methods of the given signatures. -/
def accessors (taken : List Signature) (f : FieldDecl) : List ContractMethod :=
  let annotations := accessorAnnotations f
  let getter := if .nullary f.name ∈ taken then [] else
    [{ name := f.name, returnType := f.type, annotations }]
  let setter := if f.modifiers.isFinal ∨ f.readOnly ∨ .ofTypes f.name [f.type] ∈ taken then [] else
    [{ name := f.name, returnType := voidType, params := [⟨f.name, f.type⟩], annotations }]
  getter ++ setter

/-- The methods of a component's contract. -/
def methodsOf (c : ComponentDecl) : List ContractMethod :=
  let visible := visibleMethods c
  (visible.filter (!·.modifiers.isOverride)).map .ofMethod ++
    (visibleFields c).flatMap (accessors (visible.map (·.signature)))

/-- The interfaces that a component's contract extends. -/
def superinterfacesOf (p : Project) (c : ComponentDecl) : List String :=
  ascending (c.markers.filter (fun m => (p.component? m).isNone) ++
    (p.catalog.dependencies c.name).map p.contractType)

/-- The contract of a component that is not imported. -/
def ofComponent (p : Project) (c : ComponentDecl) : Contract where
  name := ComponentName.contract c.name
  component := c.name
  superinterfaces := superinterfacesOf p c
  methods := methodsOf c

/-- The contract of any component. -/
def of? (p : Project) (c : ComponentDecl) : Option Contract :=
  if c.imported then (p.catalog.contracts.get? c.name).map ofDecl else some (ofComponent p c)

/-- The contracts of a project by component, in declaration order. -/
def all (p : Project) : OrderedMap String Contract :=
  .ofList (p.catalog.components.values.filterMap fun c => (of? p c).map (c.name, ·))

end Contract

end EntityWeaver
