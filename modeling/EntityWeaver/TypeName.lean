import EntityWeaver.Text.Blank

/-! Names of types and the primitive types among them.

    A type may be spelled with blanks anywhere. Its normal form has none except one space after each
    comma, so two spellings name the same type exactly when their normal forms agree. Eight primitive
    types travel over a data stream by a method of the stream itself. -/

namespace EntityWeaver

/-- The return type of a method without a result. -/
def voidType : String := "void"

/-- The normal form of a type name: blanks dropped, one space after each comma. -/
def normalType (type : String) : String :=
  String.ofList (Text.replace [','] [',', ' '] (type.toList.filter fun c => !Text.isBlank c))

/-- Spacing commas adds blanks only. -/
theorem filter_not_isBlank_replace_comma (s : List Char) :
    (Text.replace [','] [',', ' '] s).filter (fun c => !Text.isBlank c) =
      s.filter fun c => !Text.isBlank c := by
  have hcomma : Text.isBlank ',' = false := by decide
  have hspace : Text.isBlank ' ' = true := by decide
  unfold Text.replace
  induction s with
  | nil => rfl
  | cons c rest ih =>
    unfold Text.replaceFrom
    by_cases h : c = ','
    · subst h
      simp [hcomma, hspace, ih]
    · simp [List.isPrefixOf, Ne.symm h, List.filter_cons, ih]

/-- A normal form is its own normal form. -/
@[simp] theorem normalType_normalType (type : String) :
    normalType (normalType type) = normalType type := by
  simp only [normalType, String.toList_ofList, filter_not_isBlank_replace_comma, List.filter_filter,
    Bool.and_self]

/-- The types that a data stream carries by itself. -/
inductive Primitive where
  | bool | byte | short | int | long | float | double | str
  deriving Repr, DecidableEq

namespace Primitive

/-- The primitive type of that name, in any spelling. -/
def ofType? (type : String) : Option Primitive :=
  match normalType type with
  | "boolean" => some .bool
  | "byte" => some .byte
  | "short" => some .short
  | "int" => some .int
  | "long" => some .long
  | "float" => some .float
  | "double" => some .double
  | "String" | "java.lang.String" => some .str
  | _ => none

/-- All spellings of a type are the same primitive type. -/
@[simp] theorem ofType?_normalType (type : String) : ofType? (normalType type) = ofType? type := by
  unfold ofType?
  rw [normalType_normalType]

/-- The stream method that writes or reads a value of the type. -/
def streamMethod : Primitive → String
  | .bool => "bool"
  | .byte => "b"
  | .short => "s"
  | .int => "i"
  | .long => "l"
  | .float => "f"
  | .double => "d"
  | .str => "str"

/-- The type's own name. -/
def typeName : Primitive → String
  | .bool => "boolean"
  | .byte => "byte"
  | .short => "short"
  | .int => "int"
  | .long => "long"
  | .float => "float"
  | .double => "double"
  | .str => "String"

end Primitive

/-- The value of a field that has no initializer. -/
def defaultValue (type : String) : String :=
  match normalType type with
  | "float" | "double" | "int" | "long" | "short" | "char" | "byte" => "0"
  | "boolean" => "false"
  | _ => "null"

end EntityWeaver
