import EntityWeaver.Source.Member

/-! Generated types and the files that hold them.

    A type is printed in one order whatever the order in which its parts were added: superinterfaces
    and fields by name, constructors before methods and those by signature. So the same parts always
    give the same text, and generating again changes no file. Equal keys keep the order of the parts. -/

namespace EntityWeaver

inductive TypeKind where
  | interface | class_
  deriving Repr, DecidableEq

/-- A generated type. -/
structure TypeDef where
  kind : TypeKind
  name : String
  modifiers : List String := ["public"]
  annotations : List String := []
  superclass : Option String := none
  superinterfaces : List String := []
  fields : List SourceField := []
  methods : List SourceMethod := []
  deriving Repr, DecidableEq

/-- Texts in ascending order, each once. -/
def ascending (xs : List String) : List String := (xs.mergeSort (· ≤ ·)).eraseDups

namespace TypeDef

/-- The annotation of every generated type. -/
def suppressWarnings : String :=
  "@SuppressWarnings(\x7b\"all\", \"unchecked\", \"deprecation\"\x7d)"

def addSuperinterface (t : TypeDef) (name : String) : TypeDef :=
  if t.superinterfaces.contains name then t
  else { t with superinterfaces := t.superinterfaces ++ [name] }

/-- Superinterfaces leave everything else in a type alone. -/
theorem foldl_addSuperinterface_eq (t : TypeDef) (names : List String) :
    names.foldl addSuperinterface t =
      { t with superinterfaces := (names.foldl addSuperinterface t).superinterfaces } := by
  induction names generalizing t with
  | nil => rfl
  | cons first rest ih =>
    rw [List.foldl_cons, ih, addSuperinterface]
    split <;> rfl

@[simp] theorem name_foldl_addSuperinterface (t : TypeDef) (names : List String) :
    (names.foldl addSuperinterface t).name = t.name := by
  rw [foldl_addSuperinterface_eq]

@[simp] theorem superclass_foldl_addSuperinterface (t : TypeDef) (names : List String) :
    (names.foldl addSuperinterface t).superclass = t.superclass := by
  rw [foldl_addSuperinterface_eq]

@[simp] theorem fields_foldl_addSuperinterface (t : TypeDef) (names : List String) :
    (names.foldl addSuperinterface t).fields = t.fields := by
  rw [foldl_addSuperinterface_eq]

@[simp] theorem methods_foldl_addSuperinterface (t : TypeDef) (names : List String) :
    (names.foldl addSuperinterface t).methods = t.methods := by
  rw [foldl_addSuperinterface_eq]

def addMethod (t : TypeDef) (m : SourceMethod) : TypeDef := { t with methods := t.methods ++ [m] }

def hasField (t : TypeDef) (name : String) : Bool := t.fields.any (·.name == name)

/-- Whether a method has this name and return type. -/
def hasMethod (t : TypeDef) (name returnType : String) : Bool :=
  t.methods.any fun m => m.name == name && m.returnType == some returnType

/-- The order in which methods are printed. -/
def methodLe (a b : SourceMethod) : Bool :=
  match a.returnType.isSome, b.returnType.isSome with
  | false, true => true
  | true, false => false
  | _, _ => a.signatureText ≤ b.signatureText

/-- The fields in printing order. -/
def sortedFields (t : TypeDef) : List SourceField := t.fields.mergeSort fun a b => a.name ≤ b.name

/-- The methods in printing order. -/
def sortedMethods (t : TypeDef) : List SourceMethod := t.methods.mergeSort methodLe

/-- The line that opens the type. -/
def header (t : TypeDef) : String :=
  let (keyword, verb) := match t.kind with
    | .interface => ("interface", "extends")
    | .class_ => ("class", "implements")
  let supers := ascending t.superinterfaces
  spaced t.modifiers ++ keyword ++ " " ++ t.name ++ (t.superclass.elim "" (" extends " ++ ·)) ++
    (if supers = [] then "" else " " ++ verb ++ " " ++ ", ".intercalate supers) ++ " \x7b\n"

/-- The methods in order, each behind an empty line unless it is the first member. -/
def renderMethods (inInterface first : Bool) : List SourceMethod → String
  | [] => ""
  | m :: ms =>
    (if first then "" else "\n") ++ m.render inInterface ++ renderMethods inInterface false ms

/-- The type as a complete source file. -/
def toSource (t : TypeDef) (package : String) (imports : List String) : String :=
  "package " ++ package ++ ";\n\n" ++
    (if imports = [] then ""
      else String.join (imports.map fun i => "import " ++ i ++ ";\n") ++ "\n") ++
    String.join (t.annotations.map (· ++ "\n")) ++ t.header ++
    String.join (t.sortedFields.map SourceField.render) ++
    renderMethods (t.kind == .interface) (t.fields = []) t.sortedMethods ++ "\x7d\n"

end TypeDef

/-- A text without every occurrence of `w` at its front; `room` bounds their number. -/
def dropEvery (w : List Char) : Nat → List Char → List Char
  | 0, s => s
  | room + 1, s => match Text.afterStart? w s with
    | some rest => dropEvery w room rest
    | none => s

/-- What an import line imports: without the keyword, the semicolons and the blanks around. -/
def importedName (line : String) : String :=
  let s := Text.trim line.toList
  let s := dropEvery "import ".toList s.length s
  let s := (s.reverse.dropWhile (· = ';')).reverse
  String.ofList (Text.trim s)

/-- Import lines as names in ascending order, each once. -/
def normalImports (lines : List String) : List String :=
  ascending ((lines.map importedName).filter (· ≠ ""))

/-- A file to be written: one generated type with its place. -/
structure SourceUnit where
  package : String
  name : String
  imports : List String
  source : String
  deriving Repr, DecidableEq

namespace SourceUnit

/-- The unit of a type. -/
def ofType (t : TypeDef) (package : String) (imports : List String) : SourceUnit :=
  ⟨package, t.name, imports, t.toSource package imports⟩

/-- The type's name with its package. -/
def qualifiedName (u : SourceUnit) : String :=
  if u.package = "" then u.name else u.package ++ "." ++ u.name

/-- The directories of the file below the output root. -/
def directories (u : SourceUnit) : List String :=
  ((u.package.toList.splitOn '.').filter (· ≠ [])).map String.ofList

/-- The name of the file. -/
def fileName (u : SourceUnit) : String := u.name ++ ".java"

end SourceUnit

end EntityWeaver
