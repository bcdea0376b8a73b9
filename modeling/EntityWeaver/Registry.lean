import EntityWeaver.Emission.Basic
import EntityWeaver.Declaration.Basic
import EntityWeaver.Settings

/-! The registry of entity types.

    Every pointer and every blueprint has a place in the order of registration: pointers first, then
    blueprints, both by qualified name and each name once. The place depends on the names alone, so
    the same declarations register the same types in the same order however they are arranged. The
    generated registry type looks factories up by name or class and registers every entry. -/

namespace EntityWeaver

inductive EntryKind where
  | pointer | blueprint
  deriving Repr, DecidableEq

/-- A registered type under its qualified name, with its place in the order. -/
structure RegistryEntry where
  name : String
  id : Nat
  kind : EntryKind
  deriving Repr, DecidableEq

/-- The registered types in order. -/
structure Registry where
  entries : List RegistryEntry
  deriving Repr, DecidableEq

namespace Registry

/-- The name of the generated type. -/
def typeName : String := "EntityRegistry"

/-- A type with its package. -/
def qualify (package simple : String) : String :=
  if package = "" then simple else package ++ "." ++ simple

/-- The names to register with their kinds, in order. -/
def names (pointers : List PointerDecl) (blueprints : List String) (package : String) :
    List (String × EntryKind) :=
  (ascending (pointers.map (·.name))).map (·, .pointer) ++
    (ascending (blueprints.map (qualify package))).map (·, .blueprint)

/-- The registry of pointers and of blueprints in a package. -/
def assign (pointers : List PointerDecl) (blueprints : List String) (package : String) : Registry :=
  ⟨(names pointers blueprints package).mapIdx fun id (name, kind) => ⟨name, id, kind⟩⟩

/-- The place of a qualified name. -/
def idOf? (r : Registry) (qualified : String) : Option Nat :=
  (r.entries.find? (·.name == qualified)).map (·.id)

/-- A private static final field. -/
def tableField (name type initializer : String) : SourceField :=
  { name, type, modifiers := ["private", "static", "final"], initializer := some initializer }

/-- A public static method. -/
def staticMethod (name returnType : String) (typeParams : List String) (params : List SourceParam)
    (code : CodeBlock) : SourceMethod :=
  { name, returnType := some returnType, modifiers := ["public", "static"], typeParams, params
    body := some code }

/-- The binding of content to the factory of its entity type. -/
def contentCode (s : Settings) : CodeBlock :=
  let binding := "EntityMapping.nameMap.put(\"" ++ s.moduleName ++ "-\" + name, "
  ((((CodeBlock.empty.begin
    ("if(type.getName().startsWith(\"" ++ s.importPackage ++ ".\"))")).statements [
      "var prov = Structs.find(EntityMapping.idMap, p -> p != null && p.get().getClass().equals(type))",
      binding ++ "prov)"]).next "else").statement (binding ++ "get(type))")).finish.statement
    "return create.get(name)"

/-- The statement that registers an entry. -/
def registration (e : RegistryEntry) : String :=
  "register(\"" ++ e.name ++ "\", " ++ e.name ++ ".class, " ++ e.name ++ "::create)"

/-- The generated registry type. -/
def toSource (r : Registry) (s : Settings) : TypeDef :=
  let root := s.rootContract
  let doing (texts : List String) := CodeBlock.empty.statements texts
  { kind := .class_
    name := typeName
    modifiers := ["public", "final"]
    annotations := ["@SuppressWarnings(\"unchecked\")"]
    fields := [
      tableField "map" ("ObjectMap<String, Prov<? extends " ++ root ++ ">>") "new ObjectMap<>()",
      tableField "ids" ("ObjectIntMap<Class<? extends " ++ root ++ ">>") "new ObjectIntMap<>()"]
    methods := [
      { SourceMethod.ofType typeName with
        modifiers := ["private"], body := some (doing ["throw new AssertionError()"]) },
      staticMethod "get" "Prov<T>" ["T extends " ++ root] [⟨"Class<T>", "type"⟩]
        (doing ["return get(type.getCanonicalName())"]),
      staticMethod "get" "Prov<T>" ["T extends " ++ root] [⟨"String", "name"⟩]
        (doing ["return (Prov<T>)map.get(name)"]),
      staticMethod "getID" "int" [] [⟨"Class<? extends " ++ root ++ ">", "type"⟩]
        (doing ["return ids.get(type, -1)"]),
      staticMethod "register" "void" ["T extends " ++ root]
        [⟨"String", "name"⟩, ⟨"Class<T>", "type"⟩, ⟨"Prov<? extends T>", "prov"⟩]
        (doing ["map.put(name, prov)", "ids.put(type, EntityMapping.register(name, prov))"]),
      staticMethod "content" "T" ["T", "E extends " ++ root]
        [⟨"String", "name"⟩, ⟨"Class<E>", "type"⟩, ⟨"Func<String, ? extends T>", "create"⟩]
        (contentCode s),
      staticMethod "register" "void" [] [] (doing (r.entries.map registration))] }

/-- What the generated type imports. -/
def imports (s : Settings) : List String :=
  normalImports ["arc.func.Func", "arc.func.Prov", "arc.struct.ObjectIntMap", "arc.struct.ObjectMap",
    "arc.util.Structs", s.importPackage ++ ".EntityMapping", s.importPackage ++ "." ++ s.rootContract]

/-- The unit of the generated type. -/
def toUnit (r : Registry) (s : Settings) : SourceUnit :=
  .ofType (r.toSource s) s.outputPackage (imports s)

end Registry

end EntityWeaver
