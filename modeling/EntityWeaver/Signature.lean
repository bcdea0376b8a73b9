import EntityWeaver.TypeName

/-! Method signatures: a name and the parameter types in normal form.

    The text of a signature is `name(T1, T2)`. Reading takes the name before the first parenthesis and
    splits what lies between it and the closing one at the commas outside angle brackets, so that the
    type arguments of a parameter stay together. Signatures are ordered by name, then by parameters. -/

namespace EntityWeaver

/-- What tells the methods of a type apart. -/
structure Signature where
  name : String
  params : List String
  deriving Repr, DecidableEq, Hashable

namespace Signature

/-- The signature with these parameter types, in any spelling. -/
def ofTypes (name : String) (types : List String) : Signature := ⟨name, types.map normalType⟩

/-- The signature of a method without parameters. -/
def nullary (name : String) : Signature := ofTypes name []

/-- The number of parameters. -/
def arity (s : Signature) : Nat := s.params.length

/-- `name(T1, T2)`. -/
def text (s : Signature) : String := s.name ++ "(" ++ ", ".intercalate s.params ++ ")"

/-- The parts of a parameter list, untrimmed, at a depth of angle brackets; `part` is the current
    one, reversed. A closing bracket too many is no bracket. -/
def splitParams (depth : Nat) (part : List Char) : List Char → List (List Char)
  | [] => [part.reverse]
  | '<' :: rest => splitParams (depth + 1) ('<' :: part) rest
  | '>' :: rest => splitParams (depth - 1) ('>' :: part) rest
  | ',' :: rest =>
    if depth = 0 then part.reverse :: splitParams 0 [] rest else splitParams depth (',' :: part) rest
  | c :: rest => splitParams depth (c :: part) rest

/-- The parameter types in the text between the parentheses; empty parts are none. -/
def paramsOf (inner : List Char) : List String :=
  ((splitParams 0 [] inner).map Text.trim).filter (· ≠ []) |>.map String.ofList

/-- A text, trimmed, that spells no signature. -/
structure Malformed where
  text : String
  deriving Repr, DecidableEq

def Malformed.message (e : Malformed) : String := "invalid signature: `" ++ e.text ++ "`"

/-- The signature that a text spells. -/
def ofText? (s : String) : Except Malformed Signature :=
  let cs := Text.trim s.toList
  let name := Text.trim (cs.takeWhile (· ≠ '('))
  match cs.dropWhile (· ≠ '('), cs.getLast? with
  | _ :: inner, some ')' =>
    if name = [] ∨ name.any Text.isBlank then .error ⟨String.ofList cs⟩
    else .ok (ofTypes (String.ofList name) (paramsOf inner.dropLast))
  | _, _ => .error ⟨String.ofList cs⟩

/-- The order by name, then by parameters. -/
def compare (a b : Signature) : Ordering :=
  (Ord.compare a.name b.name).then (Ord.compare a.params b.params)

end Signature

end EntityWeaver
