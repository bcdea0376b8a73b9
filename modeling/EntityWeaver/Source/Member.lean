import EntityWeaver.Source.CodeBlock

/-! Members of a generated type: fields and methods, and how they are printed.

    A member is printed one level deep: annotations on lines of their own, then the modifiers, then
    the declaration. In an interface a method has no modifiers; a method without a body ends in a
    semicolon; a constructor has no return type. -/

namespace EntityWeaver

/-- A field of a generated type. -/
structure SourceField where
  name : String
  type : String
  modifiers : List String := []
  initializer : Option String := none
  annotations : List String := []
  deriving Repr, DecidableEq

/-- A parameter of a generated method, by type and name. -/
structure SourceParam where
  type : String
  name : String
  deriving Repr, DecidableEq

/-- A method or constructor of a generated type. -/
structure SourceMethod where
  name : String
  /-- Absent for a constructor. -/
  returnType : Option String
  params : List SourceParam := []
  modifiers : List String := []
  typeParams : List String := []
  annotations : List String := []
  /-- Absent for an abstract method. -/
  body : Option CodeBlock := some .empty
  deriving Repr, DecidableEq

/-- Words set apart from what follows them by a space each. -/
def spaced (words : List String) : String := String.join (words.map (· ++ " "))

/-- Annotations on lines of their own, one level deep. -/
def annotationLines (annotations : List String) : String :=
  String.join (annotations.map fun a => CodeBlock.indent ++ a ++ "\n")

namespace SourceField

/-- A field as printed. -/
def render (f : SourceField) : String :=
  annotationLines f.annotations ++ CodeBlock.indent ++ spaced f.modifiers ++ f.type ++ " " ++ f.name ++
    (f.initializer.elim "" (" = " ++ ·)) ++ ";\n"

end SourceField

namespace SourceMethod

/-- A method of that name without parameters, with an empty body. -/
def ofName (name returnType : String) : SourceMethod := { name, returnType := some returnType }

/-- A constructor of the type of that name. -/
def ofType (name : String) : SourceMethod := { name, returnType := none }

/-- `name(T1, T2)`, with the types as spelled. -/
def signatureText (m : SourceMethod) : String :=
  m.name ++ "(" ++ ", ".intercalate (m.params.map (·.type)) ++ ")"

/-- A method as printed, in an interface or in a class. -/
def render (m : SourceMethod) (inInterface : Bool) : String :=
  annotationLines m.annotations ++ CodeBlock.indent ++
    (if inInterface then "" else spaced m.modifiers) ++
    (if m.typeParams = [] then "" else "<" ++ ", ".intercalate m.typeParams ++ "> ") ++
    (m.returnType.elim "" (· ++ " ")) ++ m.name ++ "(" ++
    ", ".intercalate (m.params.map fun p => p.type ++ " " ++ p.name) ++ ")" ++
    (match m.body with
      | none => ";\n"
      | some code => " \x7b\n" ++ code.render 2 ++ CodeBlock.indent ++ "\x7d\n")

end SourceMethod

end EntityWeaver
