import EntityWeaver.ComponentName
import EntityWeaver.Declaration.Snapshot
import EntityWeaver.Diagnostic
import EntityWeaver.OrderedMap
import EntityWeaver.Splice

/-! The catalog of a run: the declarations with every reference to a component by its own name.

    An author may refer to a component by its name or by the name of its contract. Taking a snapshot
    into the catalog replaces the reference wherever one can stand: markers, excluded groups, the
    components that directives name, and the selections of blueprints. On the way the insert and wrap
    directives are checked and indexed by target, and pointers without a factory are left out.

          reference ──declared?──▶ kept
              │ no
              ▼
          contract of a declared component?  ──yes──▶ that component      ──no──▶ kept -/

namespace EntityWeaver

/-- The declarations of a run under canonical names, and the splices among them. -/
structure Catalog where
  /-- By name, in declaration order. -/
  components : OrderedMap String ComponentDecl := .empty
  blueprints : List BlueprintDecl := []
  /-- Those with a factory. -/
  pointers : List PointerDecl := []
  /-- By the component that each belongs to. -/
  contracts : OrderedMap String ContractDecl := .empty
  splices : SpliceIndex := []

namespace Snapshot

def declares (s : Snapshot) (name : String) : Bool := (s.component? name).isSome

/-- The component that a reference means, or the reference itself if it means none. -/
def canonical (s : Snapshot) (reference : String) : String :=
  if s.declares reference then reference
  else ((ComponentName.ofContract reference).find? s.declares).getD reference

/-- A directive with canonical references; signatures and method names are none. -/
def canonicalDirective (s : Snapshot) : Directive → Directive
  | .remove c => .remove (s.canonical c)
  | .extend cs mode => .extend (cs.map s.canonical) mode
  | .insert target block after => .insert target (block.map s.canonical) after
  | .wrap target block => .wrap target (block.map s.canonical)
  | d => d

def canonicalMethod (s : Snapshot) (m : MethodDecl) : MethodDecl :=
  { m with directives := m.directives.map s.canonicalDirective }

def canonicalComponent (s : Snapshot) (c : ComponentDecl) : ComponentDecl :=
  { c with
    markers := c.markers.map s.canonical
    excludedGroups := c.excludedGroups.map s.canonical
    methods := c.methods.map s.canonicalMethod }

def canonicalBlueprint (s : Snapshot) (b : BlueprintDecl) : BlueprintDecl :=
  { b with components := b.components.map s.canonical, component := b.component.map s.canonical }

end Snapshot

namespace Splice

/-- The splice of a method aimed at a target, if the target is a signature. -/
def aim (c : ComponentDecl) (m : MethodDecl) (target : String) (block : Option String)
    (kind : SpliceKind) : Except AuthoringError (Signature × Splice) :=
  match Signature.ofText? target with
  | .ok signature => .ok (signature, ⟨c.name, m.name, block, m.priority, kind⟩)
  | .error _ => .error (.malformedTarget c.name m.name target)

/-- The splice that a directive on a method asks for, or what is wrong with it. An inserted method has
    no parameters; a wrapping one has none either and returns a truth value. -/
def ofDirective? (c : ComponentDecl) (m : MethodDecl) :
    Directive → Option (Except AuthoringError (Signature × Splice))
  | .insert target block after => some <|
    if m.params ≠ [] then .error (.insertWithParams c.name m.name)
    else aim c m target block (.insert after m.bypassesGroupCheck)
  | .wrap target block => some <|
    if m.params ≠ [] ∨ m.returnType ≠ "boolean" then .error (.invalidWrap c.name m.name)
    else aim c m target block .wrap
  | _ => none

/-- What the directives of a component ask for, with the place each stands at. -/
def requests (c : ComponentDecl) :
    List (Except AuthoringError (Signature × Splice) × Option Anchor) :=
  c.methods.flatMap fun m => (m.directives.filterMap (ofDirective? c m)).map (·, m.anchor)

end Splice

namespace Catalog

/-- The splices that are asked for rightly. -/
def accepted (requests : List (Except AuthoringError (Signature × Splice) × Option Anchor)) :
    SpliceIndex :=
  requests.filterMap fun r => r.1.toOption

/-- The reports of those that are not. -/
def refused (requests : List (Except AuthoringError (Signature × Splice) × Option Anchor)) :
    List Diagnostic :=
  requests.filterMap fun
    | (.error e, anchor) => some (.ofError e anchor)
    | (.ok _, _) => none

/-- The catalog of a snapshot. -/
def ofSnapshot (s : Snapshot) : Catalog :=
  let components := s.components.map s.canonicalComponent
  { components := .ofList (components.map fun c => (c.name, c))
    blueprints := s.blueprints.map s.canonicalBlueprint
    pointers := s.pointers.filter (·.hasFactory)
    contracts := .ofList (s.contracts.map fun c => (s.canonical c.component, c))
    splices := accepted (components.flatMap Splice.requests) }

/-- What is wrong with the splices and the pointers of a snapshot. -/
def diagnostics (s : Snapshot) : List Diagnostic :=
  refused ((s.components.map s.canonicalComponent).flatMap Splice.requests) ++
    (s.pointers.filter (!·.hasFactory)).map fun p =>
      .ofError (.missingFactory p.simpleName) p.anchor

/-- The component of that name. -/
def component? (c : Catalog) (name : String) : Option ComponentDecl := c.components.get? name

/-- Whether a blueprint is declared on the component. -/
def isBlueprintBase (c : Catalog) (component : String) : Bool :=
  c.blueprints.any (·.component == some component)

end Catalog

end EntityWeaver
