import EntityWeaver.Project

/-! Base classes of foundational components.

    The fields of a foundational component and of all its dependencies that others may use are declared
    once, in an abstract class that every entity with the component extends. Of fields with one name
    the first counts, the dependencies in order of name going before the component. A component that a
    blueprint is declared on has no such class: the entity takes its place. The class stays open for
    accessors until it is emitted. -/

namespace EntityWeaver

/-- A base class and the components that it draws on. -/
structure BaseClass where
  component : String
  type : TypeDef
  /-- By name. -/
  members : List String
  deriving Repr, DecidableEq

namespace BaseClass

/-- Whether the component has a base class. -/
def isEligible (c : Catalog) (component : ComponentDecl) : Bool :=
  component.foundational && !component.imported && !c.isBlueprintBase component.name

/-- The declaration of a field in the base class. -/
def fieldOf (f : FieldDecl) : SourceField where
  name := f.name
  type := f.type
  modifiers := "public" :: ((if f.modifiers.transient then ["transient"] else []) ++
    (if f.modifiers.volatile then ["volatile"] else []))
  initializer := f.initializer
  annotations := f.annotations

/-- Fields of which the first of each name is kept, given the names already taken. -/
def firstByName (taken : List String) : List FieldDecl → List FieldDecl
  | [] => []
  | f :: rest =>
    if f.name ∈ taken then firstByName taken rest else f :: firstByName (f.name :: taken) rest

/-- The components that a base class draws on, in the order in which their fields count. -/
def sources (c : Catalog) (component : String) : List String := c.dependencies component ++ [component]

/-- The base class of an eligible component. -/
def ofComponent (p : Project) (component : ComponentDecl) : BaseClass :=
  let names := sources p.catalog component.name
  let known := names.filter fun n => (p.component? n).isSome
  let fields := (names.filterMap p.component?).flatMap fun c => c.fields.filter (·.isHoistable)
  { component := component.name
    members := ascending names
    type := (known.map p.contractType).foldl .addSuperinterface
      { kind := .class_, name := ComponentName.base component.name, modifiers := ["public", "abstract"]
        fields := (firstByName [] fields).map fieldOf } }

/-- The base classes of a project by component, in declaration order. -/
def all (p : Project) : OrderedMap String BaseClass :=
  .ofList ((p.catalog.components.values.filter (isEligible p.catalog)).map fun c =>
    (c.name, ofComponent p c))

end BaseClass

end EntityWeaver
