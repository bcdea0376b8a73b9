import EntityWeaver.BaseClass
import EntityWeaver.Contract
import EntityWeaver.Merge.Layout
import EntityWeaver.Registry
import EntityWeaver.EntityStream.Code

/-! Entities: what a blueprint becomes.

    A blueprint is first given a name and checked; then its components are resolved, their fields
    merged and its stream code validated, which makes a draft. A draft whose entity is saved waits for
    the history of its layout. With the history the methods of every signature are merged and the
    generated type is put together: fields, merged methods, the plumbing that every entity has, and
    accessors for what its contracts promise and no component implements.

        blueprint ──heading──▶ draft ──history──▶ entity
            │ mistake            │ mistake           │ verbatim text without a common margin
            ▼                    ▼                   ▼
         reported             reported            no result -/

namespace EntityWeaver

/-- A composed entity. -/
structure Entity where
  name : String
  /-- The requested components, then their dependencies. -/
  components : List String
  fields : FieldSet
  /-- By first declaration of the signature. -/
  plans : List MethodPlan
  groups : List String
  /-- The foundational component whose base class the entity extends. -/
  base : Option String
  synced : Bool
  /-- The number of the present layout, if the entity is saved. -/
  revision : Option UInt16
  type : TypeDef
  imports : List String
  deriving Repr

namespace Entity

def plan? (e : Entity) (signature : Signature) : Option MethodPlan :=
  e.plans.find? (·.signature == signature)

/-- The unit of an entity. -/
def toUnit (e : Entity) (package : String) : SourceUnit := .ofType e.type package e.imports

end Entity

/-- A blueprint with the name of its entity and the foundational component among its own. -/
structure Heading where
  blueprint : BlueprintDecl
  name : String
  foundational : Option String
  deriving Repr

namespace Heading

/-- What a blueprint without a name is called in reports. -/
def label (b : BlueprintDecl) : String := b.name.getD (ComponentName.entityOf b.components)

/-- The foundational one of the requested components, given the one found so far. -/
def foundationalOf (p : Project) (entity : String) (found : Option String) :
    List String → Except AuthoringError (Option String)
  | [] => .ok found
  | name :: rest =>
    match p.component? name with
    | none => .error (.unresolvedComponent entity name)
    | some c =>
      match c.foundational, found with
      | false, _ => foundationalOf p entity found rest
      | true, none => foundationalOf p entity (some name) rest
      | true, some first => .error (.multipleFoundational entity first name)

/-- The name that is asked for, or that follows from the components. -/
def requestedName (b : BlueprintDecl) : String :=
  match b.name, b.component with
  | some name, _ => name
  | none, some component => ComponentName.base component
  | none, none => label b

/-- The heading of a blueprint. The name of a base class that the entity extends is not free. -/
def of (p : Project) (b : BlueprintDecl) : Except AuthoringError Heading := do
  if b.components = [] then .error (.emptyBlueprint (label b))
  let foundational ← foundationalOf p (label b) none b.components
  let name := requestedName b
  let taken := b.component.isNone && foundational.any fun f => name == ComponentName.base f
  return ⟨b, if taken then name ++ "Entity" else name, foundational⟩

/-- The component whose base class the entity extends: none if the entity takes the place of it. -/
def base (h : Heading) : Option String := if h.blueprint.component.isSome then none else h.foundational

end Heading

/-- An entity before its history is known. -/
structure Draft where
  heading : Heading
  resolved : List String
  components : List ComponentDecl
  fields : FieldSet
  groups : List String
  synced : Bool
  deriving Repr

namespace Draft

/-- The groups that components bring, each once; excluded components bring none. -/
def groupsOf (components : List ComponentDecl) : List String :=
  let excluded := components.flatMap (·.excludedGroups)
  ((components.filter fun c => !excluded.contains c.name).filterMap (·.group)).eraseDups

/-- The draft under a heading, and what is wrong with its fields. -/
def of (p : Project) (h : Heading) : Draft × List Diagnostic :=
  let resolved := p.catalog.resolve h.blueprint.components
  let components := resolved.filterMap p.component?
  let synced := resolved.contains p.settings.syncComponent
  let (fields, reports) := FieldSet.merge
    ⟨h.name, h.base.map p.catalog.withDependencies, synced, h.blueprint.anchor⟩ components
  (⟨h, resolved, components, fields, groupsOf components, synced⟩, reports)

/-- Whether the entity is saved or synchronized. -/
def hasIo (d : Draft) : Bool := d.heading.blueprint.genIo && (d.synced || d.heading.blueprint.serialize)

/-- What the streams of a draft are made from. -/
def stream (p : Project) (d : Draft) : EntityStream := ⟨d.heading.name, p.codecs, d.fields, d.synced⟩

/-- The candidates of a draft by signature, in order of first declaration. -/
def candidates (d : Draft) : OrderedMap Signature (List Candidate) :=
  (d.components.flatMap fun c => c.methods.map fun m => (⟨c, m⟩ : Candidate)).foldl
    (fun table c =>
      let s := c.method.signature
      table.put s (((table.get? s).getD []) ++ [c])) .empty

/-- What merging looks at in a draft. -/
def facts (d : Draft) : MergeFacts :=
  ⟨d.heading.name, d.resolved, d.fields, d.groups, d.heading.blueprint.pooled⟩

/-- What became of one signature: its plan if it has one, the imports and the reports. -/
structure Merged where
  plan : Option MethodPlan := none
  imports : List String := []
  reports : List Diagnostic := []
  deriving Repr

/-- Merge one signature. A method with stream code gets it in front of the bodies, made anew for the
    method whose parameters the merged one has. -/
def mergeSignature (p : Project) (d : Draft) (history : List Revision) (signature : Signature)
    (candidates : List Candidate) : Merged :=
  let anchor := (candidates.findSome? (·.method.anchor)).or d.heading.blueprint.anchor
  let stream := d.stream p
  let codeFor (m : MethodDecl) : Except AuthoringError (Option InjectedCode) :=
    if d.hasIo then stream.codeFor m history else .ok none
  match candidates.head?.elim (.ok none) fun c => codeFor c.method with
  | .error e => { reports := [.ofError e anchor] }
  | .ok injected =>
    let hook : Option CodeHook := injected.map fun _ m => (codeFor m).map fun c => c.map (·.code)
    let imports := injected.elim [] (·.imports)
    match d.facts.merge signature candidates (p.catalog.splices.aimedAt signature) hook with
    | .ok plan => { plan, imports }
    | .error e => { imports, reports := [.ofError e anchor] }

/-- The methods that every entity has, as far as no component supplies them. -/
def plumbing (d : Draft) (declared : List Signature) (plans : List MethodPlan) : List SourceMethod :=
  let name := d.heading.name
  let pooled := d.heading.blueprint.pooled
  let supplied (returnType method text : String) : SourceMethod :=
    { SourceMethod.ofName method returnType with
      modifiers := ["public"], annotations := ["@Override"]
      body := some (CodeBlock.empty.statement text) }
  let assigned := (d.fields.decls.mergeSort fun a b => a.name ≤ b.name).filter fun f =>
    !(f.isStatic || f.modifiers.isFinal)
  (if .nullary "toString" ∈ declared then []
    else [supplied "String" "toString" ("return \"" ++ name ++ "#\" + id")]) ++
  (if plans.any (·.signature == .nullary "serialize") then []
    else [supplied "boolean" "serialize"
      ("return " ++ if d.heading.blueprint.serialize then "true" else "false")]) ++
  (if pooled then
    [{ SourceMethod.ofName "reset" "void" with
      modifiers := ["public"], annotations := ["@Override"]
      body := some (CodeBlock.empty.statements (assigned.map fun f =>
        "this." ++ f.name ++ " = " ++ f.initializer.getD (defaultValue f.type))) }]
    else []) ++
  [{ SourceMethod.ofType name with modifiers := ["protected"] },
    { SourceMethod.ofName "create" name with
      modifiers := ["public", "static"]
      body := some (CodeBlock.empty.statement
        (if pooled then "return Pools.obtain(" ++ name ++ ".class, " ++ name ++ "::new)"
          else "return new " ++ name ++ "()")) },
    supplied "int" "classId" ("return " ++ Registry.typeName ++ ".getID(" ++ name ++ ".class)")]

/-- The accessor that implements a contract method on a field, unless it would set a field that
    others may only read. -/
def accessor? (m : ContractMethod) (field : MergedField) : Option SourceMethod :=
  let accessor (returnType text : String) (params : List SourceParam) : SourceMethod :=
    { SourceMethod.ofName m.name returnType with
      modifiers := ["public"], annotations := ["@Override"], params
      body := some (CodeBlock.empty.statement text) }
  if m.isVoid then
    if field.decl.readOnly then none
    else some (accessor "void" ("this." ++ m.name ++ " = " ++ m.name) [⟨field.decl.type, m.name⟩])
  else some (accessor m.returnType ("return " ++ m.name) [])

/-- The generated type and the base classes, both of which accessors are added to. -/
structure Workbench where
  type : TypeDef
  bases : OrderedMap String BaseClass

/-- Add an accessor where its field is declared, unless the method is there already. -/
def placeAccessor (p : Project) (base : Option String) (field : MergedField) (w : Workbench)
    (accessor : SourceMethod) : Workbench :=
  match base.bind fun b => (w.bases.get? b).filter (·.type.hasField accessor.name) with
  | some b =>
    if b.type.hasMethod accessor.name (accessor.returnType.getD "") then w
    else { w with bases := w.bases.modify b.component fun b =>
      { b with type := b.type.addMethod accessor } }
  | none =>
    if base.any p.isImported && field.hoisted then w
    else if w.type.methods.any (·.signatureText == accessor.signatureText) then w
    else { w with type := w.type.addMethod accessor }

/-- Implement one contract method, if it is an accessor that no component declares. -/
def implement (p : Project) (d : Draft) (declared : List Signature) (w : Workbench)
    (m : ContractMethod) : Workbench :=
  match d.fields.get? m.name with
  | none => w
  | some field =>
    if m.signature ∈ declared then w
    else match accessor? m field with
      | none => w
      | some accessor => placeAccessor p d.heading.base field w accessor

/-- What a finished draft gives: the entity, the base classes with their new accessors, and what is
    wrong with the methods. -/
structure Finished where
  entity : Entity
  bases : OrderedMap String BaseClass
  reports : List Diagnostic

/-- The imports that pools and groups need. -/
def plumbingImports (p : Project) (d : Draft) : List String :=
  (if d.heading.blueprint.pooled then ["arc.util.pooling.Pools", "arc.util.pooling.Pool.Poolable"]
    else []) ++
  if d.groups = [] ∧ !d.heading.blueprint.pooled then []
  else [p.settings.importPackage ++ "." ++ groupsType]

/-- Finish a draft with its history; none if some verbatim text cannot become code. -/
def finish? (p : Project) (contracts : OrderedMap String Contract) (d : Draft)
    (history : List Revision) (bases : OrderedMap String BaseClass) : Option Finished := do
  let table := d.candidates
  let merged := table.entries.map fun (signature, cs) => d.mergeSignature p history signature cs
  let plans := merged.filterMap (·.plan)
  let planned ← plans.mapM MethodPlan.toSource?
  let (present, absent) := d.components.partition fun c => contracts.contains c.name
  let type : TypeDef := {
    kind := .class_
    name := d.heading.name
    annotations := [TypeDef.suppressWarnings]
    superclass := d.heading.base.map p.baseType
    superinterfaces := if d.heading.blueprint.pooled then ["Poolable"] else []
    fields := d.fields.toSource
    methods := planned.flatten ++ d.plumbing table.keys plans }
  let type := (present.map fun c => p.contractType c.name).foldl .addSuperinterface type
  let promised := d.components.flatMap fun c => (contracts.get? c.name).elim [] (·.methods)
  let w := promised.foldl (implement p d table.keys) ⟨type, bases⟩
  let entity : Entity := {
    name := d.heading.name
    components := d.resolved
    fields := d.fields
    plans
    groups := d.groups
    base := d.heading.base
    synced := d.synced
    revision := history.getLast?.map (·.version)
    type := w.type
    imports := normalImports (d.components.flatMap (·.imports) ++ merged.flatMap (·.imports) ++
      d.plumbingImports p) }
  let missing := absent.map fun c =>
    Diagnostic.ofError (.missingContract d.heading.name c.name) d.heading.blueprint.anchor
  return ⟨entity, w.bases, merged.flatMap (·.reports) ++ missing⟩

end Draft

end EntityWeaver
