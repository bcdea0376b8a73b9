import EntityWeaver.Declaration.Snapshot
import EntityWeaver.Json.Record

/-! The JSON form of declarations.

    `toJson` writes every field, in declaration order and with null for what is absent; `ofJson?`
    reads a record and puts the default for a field that is not given. The name of each field stands
    once in a list, which fixes both the order of writing and the order of a record given as an array.
    A whole snapshot is written with one item a line and read from any JSON text. -/

namespace EntityWeaver

open Json (Value)

namespace Anchor

def fieldNames : List String := ["file", "line"]

def toJson (a : Anchor) : Value := .object [("file", .text a.file), ("line", .nat a.line.toNat)]

def ofJson? (v : Value) : Option Anchor := do
  let r ← v.members? fieldNames
  return {
    file := ← r.required "file" (·.text?)
    line := .ofNat (← r.required "line" (·.unsigned? 32)) }

end Anchor

namespace Visibility

def toJson : Visibility → Value
  | .publicAccess => .text "public"
  | .protectedAccess => .text "protected"
  | .packageAccess => .text "package"
  | .privateAccess => .text "private"

def ofJson? (v : Value) : Option Visibility :=
  match v.plainVariant? with
  | some "public" => some .publicAccess
  | some "protected" => some .protectedAccess
  | some "package" => some .packageAccess
  | some "private" => some .privateAccess
  | _ => none

end Visibility

namespace Modifiers

def fieldNames : List String :=
  ["visibility", "static", "final", "abstract", "native", "transient", "volatile", "override"]

def toJson (m : Modifiers) : Value := .object [
  ("visibility", m.visibility.toJson), ("static", .bool m.isStatic), ("final", .bool m.isFinal),
  ("abstract", .bool m.isAbstract), ("native", .bool m.native), ("transient", .bool m.transient),
  ("volatile", .bool m.volatile), ("override", .bool m.isOverride)]

def ofJson? (v : Value) : Option Modifiers := do
  let r ← v.members? fieldNames
  return {
    visibility := ← r.optional "visibility" .publicAccess Visibility.ofJson?
    isStatic := ← r.optional "static" false (·.bool?)
    isFinal := ← r.optional "final" false (·.bool?)
    isAbstract := ← r.optional "abstract" false (·.bool?)
    native := ← r.optional "native" false (·.bool?)
    transient := ← r.optional "transient" false (·.bool?)
    volatile := ← r.optional "volatile" false (·.bool?)
    isOverride := ← r.optional "override" false (·.bool?) }

end Modifiers

namespace Interpolation

def toJson : Interpolation → Value
  | .linear => .text "linear"
  | .angular => .text "angular"

def ofJson? (v : Value) : Option Interpolation :=
  match v.plainVariant? with
  | some "linear" => some .linear
  | some "angular" => some .angular
  | _ => none

end Interpolation

namespace SyncFlags

def fieldNames : List String := ["interpolate", "clamped", "no_sync", "sync_local", "no_serialize"]

def toJson (s : SyncFlags) : Value := .object [
  ("interpolate", .option Interpolation.toJson s.interpolate), ("clamped", .bool s.clamped),
  ("no_sync", .bool s.noSync), ("sync_local", .bool s.syncLocal),
  ("no_serialize", .bool s.noSerialize)]

def ofJson? (v : Value) : Option SyncFlags := do
  let r ← v.members? fieldNames
  return {
    interpolate := ← r.optional "interpolate" none (·.nullable? Interpolation.ofJson?)
    clamped := ← r.optional "clamped" false (·.bool?)
    noSync := ← r.optional "no_sync" false (·.bool?)
    syncLocal := ← r.optional "sync_local" false (·.bool?)
    noSerialize := ← r.optional "no_serialize" false (·.bool?) }

end SyncFlags

namespace FieldDecl

def fieldNames : List String :=
  ["name", "type", "modifiers", "initializer", "read_only", "imported", "sync", "annotations", "anchor"]

def toJson (f : FieldDecl) : Value := .object [
  ("name", .text f.name), ("type", .text f.type), ("modifiers", f.modifiers.toJson),
  ("initializer", .option .text f.initializer), ("read_only", .bool f.readOnly),
  ("imported", .bool f.imported), ("sync", f.sync.toJson),
  ("annotations", .list .text f.annotations), ("anchor", .option Anchor.toJson f.anchor)]

def ofJson? (v : Value) : Option FieldDecl := do
  let r ← v.members? fieldNames
  return {
    name := ← r.required "name" (·.text?)
    type := ← r.required "type" (·.text?)
    modifiers := ← r.optional "modifiers" {} Modifiers.ofJson?
    initializer := ← r.optional "initializer" none (·.nullable? (·.text?))
    readOnly := ← r.optional "read_only" false (·.bool?)
    imported := ← r.optional "imported" false (·.bool?)
    sync := ← r.optional "sync" {} SyncFlags.ofJson?
    annotations := ← r.optional "annotations" [] (·.list? (·.text?))
    anchor := ← r.optional "anchor" none (·.nullable? Anchor.ofJson?) }

end FieldDecl

namespace ExtendMode

def toJson : ExtendMode → Value
  | .any => .text "any"
  | .all => .text "all"

def ofJson? (v : Value) : Option ExtendMode :=
  match v.plainVariant? with
  | some "any" => some .any
  | some "all" => some .all
  | _ => none

end ExtendMode

namespace Directive

def toJson : Directive → Value
  | .priority p => .object [("priority", .int p.toInt)]
  | .replace p => .object [("replace", .int p.toInt)]
  | .remove c => .object [("remove", .text c)]
  | .extend cs mode =>
    .object [("extend", .object [("components", .list .text cs), ("mode", mode.toJson)])]
  | .insert target block after =>
    .object [("insert", .object
      [("target", .text target), ("block", .option .text block), ("after", .bool after)])]
  | .wrap target block =>
    .object [("wrap", .object [("target", .text target), ("block", .option .text block)])]
  | .bypassGroupCheck => .text "bypass_group_check"
  | .noBreakBlock => .text "no_break_block"

/-- A directive with content, by its name. -/
def ofContent? (name : String) (content : Value) : Option Directive :=
  match name with
  | "priority" => (content.signed? 32).map fun n => .priority (.ofInt n)
  | "replace" => (content.signed? 32).map fun n => .replace (.ofInt n)
  | "remove" => content.text?.map .remove
  | "extend" => do
    let r ← content.members? ["components", "mode"]
    return .extend (← r.required "components" (·.list? (·.text?)))
      (← r.optional "mode" .all ExtendMode.ofJson?)
  | "insert" => do
    let r ← content.members? ["target", "block", "after"]
    return .insert (← r.required "target" (·.text?))
      (← r.optional "block" none (·.nullable? (·.text?))) (← r.optional "after" true (·.bool?))
  | "wrap" => do
    let r ← content.members? ["target", "block"]
    return .wrap (← r.required "target" (·.text?)) (← r.optional "block" none (·.nullable? (·.text?)))
  | _ => none

def ofJson? (v : Value) : Option Directive :=
  match v.plainVariant? with
  | some "bypass_group_check" => some .bypassGroupCheck
  | some "no_break_block" => some .noBreakBlock
  | _ =>
    match v.variant? with
    | some (name, some content) => ofContent? name content
    | _ => none

end Directive

namespace Parameter

def fieldNames : List String := ["name", "type"]

def toJson (p : Parameter) : Value := .object [("name", .text p.name), ("type", .text p.type)]

def ofJson? (v : Value) : Option Parameter := do
  let r ← v.members? fieldNames
  return { name := ← r.required "name" (·.text?), type := ← r.required "type" (·.text?) }

end Parameter

namespace MethodDecl

def fieldNames : List String :=
  ["name", "params", "return_type", "modifiers", "directives", "internal_impl", "body", "anchor"]

def toJson (m : MethodDecl) : Value := .object [
  ("name", .text m.name), ("params", .list Parameter.toJson m.params),
  ("return_type", .text m.returnType), ("modifiers", m.modifiers.toJson),
  ("directives", .list Directive.toJson m.directives), ("internal_impl", .bool m.internalImpl),
  ("body", .option .text m.body), ("anchor", .option Anchor.toJson m.anchor)]

def ofJson? (v : Value) : Option MethodDecl := do
  let r ← v.members? fieldNames
  return {
    name := ← r.required "name" (·.text?)
    params := ← r.optional "params" [] (·.list? Parameter.ofJson?)
    returnType := ← r.optional "return_type" voidType (·.text?)
    modifiers := ← r.optional "modifiers" {} Modifiers.ofJson?
    directives := ← r.optional "directives" [] (·.list? Directive.ofJson?)
    internalImpl := ← r.optional "internal_impl" false (·.bool?)
    body := ← r.optional "body" none (·.nullable? (·.text?))
    anchor := ← r.optional "anchor" none (·.nullable? Anchor.ofJson?) }

end MethodDecl

namespace ComponentDecl

def fieldNames : List String :=
  ["name", "foundational", "imported", "fields", "methods", "markers", "excluded_groups", "group",
   "imports", "anchor"]

def toJson (c : ComponentDecl) : Value := .object [
  ("name", .text c.name), ("foundational", .bool c.foundational), ("imported", .bool c.imported),
  ("fields", .list FieldDecl.toJson c.fields), ("methods", .list MethodDecl.toJson c.methods),
  ("markers", .list .text c.markers), ("excluded_groups", .list .text c.excludedGroups),
  ("group", .option .text c.group), ("imports", .list .text c.imports),
  ("anchor", .option Anchor.toJson c.anchor)]

def ofJson? (v : Value) : Option ComponentDecl := do
  let r ← v.members? fieldNames
  return {
    name := ← r.required "name" (·.text?)
    foundational := ← r.optional "foundational" false (·.bool?)
    imported := ← r.optional "imported" false (·.bool?)
    fields := ← r.optional "fields" [] (·.list? FieldDecl.ofJson?)
    methods := ← r.optional "methods" [] (·.list? MethodDecl.ofJson?)
    markers := ← r.optional "markers" [] (·.list? (·.text?))
    excludedGroups := ← r.optional "excluded_groups" [] (·.list? (·.text?))
    group := ← r.optional "group" none (·.nullable? (·.text?))
    imports := ← r.optional "imports" [] (·.list? (·.text?))
    anchor := ← r.optional "anchor" none (·.nullable? Anchor.ofJson?) }

end ComponentDecl

namespace BlueprintDecl

def fieldNames : List String :=
  ["name", "components", "serialize", "gen_io", "pooled", "component", "anchor"]

def toJson (b : BlueprintDecl) : Value := .object [
  ("name", .option .text b.name), ("components", .list .text b.components),
  ("serialize", .bool b.serialize), ("gen_io", .bool b.genIo), ("pooled", .bool b.pooled),
  ("component", .option .text b.component), ("anchor", .option Anchor.toJson b.anchor)]

def ofJson? (v : Value) : Option BlueprintDecl := do
  let r ← v.members? fieldNames
  return {
    name := ← r.optional "name" none (·.nullable? (·.text?))
    components := ← r.required "components" (·.list? (·.text?))
    serialize := ← r.optional "serialize" true (·.bool?)
    genIo := ← r.optional "gen_io" true (·.bool?)
    pooled := ← r.optional "pooled" false (·.bool?)
    component := ← r.optional "component" none (·.nullable? (·.text?))
    anchor := ← r.optional "anchor" none (·.nullable? Anchor.ofJson?) }

end BlueprintDecl

namespace PointerDecl

def fieldNames : List String := ["name", "has_factory", "anchor"]

def toJson (p : PointerDecl) : Value := .object [
  ("name", .text p.name), ("has_factory", .bool p.hasFactory),
  ("anchor", .option Anchor.toJson p.anchor)]

def ofJson? (v : Value) : Option PointerDecl := do
  let r ← v.members? fieldNames
  return {
    name := ← r.required "name" (·.text?)
    hasFactory := ← r.required "has_factory" (·.bool?)
    anchor := ← r.optional "anchor" none (·.nullable? Anchor.ofJson?) }

end PointerDecl

namespace ContractDecl

def fieldNames : List String := ["name", "component", "superinterfaces", "methods"]

def toJson (c : ContractDecl) : Value := .object [
  ("name", .text c.name), ("component", .text c.component),
  ("superinterfaces", .list .text c.superinterfaces), ("methods", .list MethodDecl.toJson c.methods)]

def ofJson? (v : Value) : Option ContractDecl := do
  let r ← v.members? fieldNames
  return {
    name := ← r.required "name" (·.text?)
    component := ← r.required "component" (·.text?)
    superinterfaces := ← r.optional "superinterfaces" [] (·.list? (·.text?))
    methods := ← r.optional "methods" [] (·.list? MethodDecl.ofJson?) }

end ContractDecl

namespace CodecTable

def fieldNames : List String := ["writers", "net_writers", "readers", "mutator_readers"]

/-- A table of handlers, by ascending type. -/
def handlersToJson (m : SortedMap String String) : Value :=
  .object (m.entries.map fun e => (e.1, .text e.2))

def handlersOfJson? (v : Value) : Option (SortedMap String String) := v.table?.map .ofList

def toJson (t : CodecTable) : Value := .object [
  ("writers", handlersToJson t.writers), ("net_writers", handlersToJson t.netWriters),
  ("readers", handlersToJson t.readers), ("mutator_readers", handlersToJson t.mutatorReaders)]

def ofJson? (v : Value) : Option CodecTable := do
  let r ← v.members? fieldNames
  return {
    writers := ← r.optional "writers" .empty handlersOfJson?
    netWriters := ← r.optional "net_writers" .empty handlersOfJson?
    readers := ← r.optional "readers" .empty handlersOfJson?
    mutatorReaders := ← r.optional "mutator_readers" .empty handlersOfJson? }

end CodecTable

namespace Snapshot

def fieldNames : List String := ["components", "blueprints", "pointers", "contracts", "codecs"]

def toJson (s : Snapshot) : Value := .object [
  ("components", .list ComponentDecl.toJson s.components),
  ("blueprints", .list BlueprintDecl.toJson s.blueprints),
  ("pointers", .list PointerDecl.toJson s.pointers),
  ("contracts", .list ContractDecl.toJson s.contracts), ("codecs", s.codecs.toJson)]

def ofJson? (v : Value) : Option Snapshot := do
  let r ← v.members? fieldNames
  return {
    components := ← r.optional "components" [] (·.list? ComponentDecl.ofJson?)
    blueprints := ← r.optional "blueprints" [] (·.list? BlueprintDecl.ofJson?)
    pointers := ← r.optional "pointers" [] (·.list? PointerDecl.ofJson?)
    contracts := ← r.optional "contracts" [] (·.list? ContractDecl.ofJson?)
    codecs := ← r.optional "codecs" {} CodecTable.ofJson? }

/-- A snapshot as text, one item a line. -/
def render (s : Snapshot) : String := s.toJson.pretty

/-- The snapshot that a text spells. -/
def ofText? (text : String) : Option Snapshot := (Value.ofText? text).bind ofJson?

end Snapshot

end EntityWeaver
