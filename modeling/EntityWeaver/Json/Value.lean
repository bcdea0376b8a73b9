import EntityWeaver.Json.Token
import EntityWeaver.Text.Decimal

/-! JSON values: reading and printing.

    Reading folds the tokens of a text through a machine whose state is what may come next, over a
    stack of the arrays and objects still open. Printing is one recursion on the value, in either of
    two layouts: on one line, or one item a line with two spaces a level.

    A value is `unreadable` when its text is well-formed but denotes nothing: a string with half a
    surrogate pair, or an object with such a key. It may stand where nobody looks and nowhere else. -/

namespace EntityWeaver.Json

/-- A JSON value. Members keep their order and may repeat a name; numbers keep their spelling. -/
inductive Value where
  | null
  | bool (b : Bool)
  | number (literal : String)
  | text (content : String)
  | array (items : List Value)
  | object (members : List (String × Value))
  | unreadable
  deriving Repr, Inhabited

namespace Value

/-- The value of an integer. -/
def int (n : Int) : Value := .number (Text.signed n)

/-- The value of a natural number. -/
def nat (n : Nat) : Value := .int n

/-- The value of a list, item by item. -/
def list {α : Type} (f : α → Value) (xs : List α) : Value := .array (xs.map f)

/-- Null for nothing. -/
def option {α : Type} (f : α → Value) : Option α → Value
  | none => .null
  | some x => f x

end Value

/-- An array or object still open; its content so far, last first. -/
inductive Frame where
  | array (items : List Value)
  | object (members : List (String × Value)) (readable : Bool)
  | member (members : List (String × Value)) (readable : Bool) (key : Option String)
  deriving Repr

/-- What may come next, with the open frames from the innermost out. -/
inductive State where
  | value (stack : List Frame)
  | first (stack : List Frame)
  | key (stack : List Frame)
  | colon (stack : List Frame)
  | next (stack : List Frame)
  | done (v : Value)
  deriving Repr

/-- The value of an object that is closed. -/
def objectOf (members : List (String × Value)) (readable : Bool) : Value :=
  if readable then .object members.reverse else .unreadable

/-- A value is complete: it joins the innermost frame, or is the result. -/
def State.put (v : Value) : List Frame → State
  | [] => .done v
  | .array items :: rest => .next (.array (v :: items) :: rest)
  | .member ms readable (some k) :: rest => .next (.object ((k, v) :: ms) readable :: rest)
  | .member ms _ none :: rest => .next (.object ms false :: rest)
  | .object ms readable :: rest => .next (.object ms readable :: rest)

/-- A value begins with the token. -/
def State.start (stack : List Frame) : Token → Option State
  | .null => some (.put .null stack)
  | .true => some (.put (.bool true) stack)
  | .false => some (.put (.bool false) stack)
  | .number literal => some (.put (.number literal) stack)
  | .text content => some (.put (.text content) stack)
  | .unpaired => some (.put .unreadable stack)
  | .openArray => some (.first (.array [] :: stack))
  | .openObject => some (.first (.object [] true :: stack))
  | _ => none

/-- A member begins with its key. -/
def State.startMember (ms : List (String × Value)) (readable : Bool) (rest : List Frame) :
    Token → Option State
  | .text content => some (.colon (.member ms readable (some content) :: rest))
  | .unpaired => some (.colon (.member ms readable none :: rest))
  | _ => none

/-- One token of the text. -/
def State.step : State → Token → Option State
  | .value stack, t => State.start stack t
  | .first (.array [] :: rest), .closeArray => some (.put (.array []) rest)
  | .first (.object ms readable :: rest), .closeObject => some (.put (objectOf ms readable) rest)
  | .first (.object ms readable :: rest), t => State.startMember ms readable rest t
  | .first stack, t => State.start stack t
  | .key (.object ms readable :: rest), t => State.startMember ms readable rest t
  | .colon stack, .colon => some (.value stack)
  | .next (.array items :: rest), .comma => some (.value (.array items :: rest))
  | .next (.array items :: rest), .closeArray => some (.put (.array items.reverse) rest)
  | .next (.object ms readable :: rest), .comma => some (.key (.object ms readable :: rest))
  | .next (.object ms readable :: rest), .closeObject => some (.put (objectOf ms readable) rest)
  | _, _ => none

/-- The value a token list spells. -/
def ofTokens? (tokens : List Token) : Option Value :=
  match tokens.foldlM State.step (.value []) with
  | some (.done v) => some v
  | _ => none

/-- The value a text spells: exactly one, with blanks around it. -/
def Value.ofText? (s : String) : Option Value := (scan s).bind ofTokens?

/-- The spelling of a character inside a string. -/
def escape (c : Char) : List Char :=
  match c with
  | '"' => ['\\', '"']
  | '\\' => ['\\', '\\']
  | '\x08' => ['\\', 'b']
  | '\x0c' => ['\\', 'f']
  | '\n' => ['\\', 'n']
  | '\r' => ['\\', 'r']
  | '\t' => ['\\', 't']
  | c =>
    if c.toNat < 0x20 then
      ['\\', 'u', '0', '0', Nat.digitChar (c.toNat / 16), Nat.digitChar (c.toNat % 16)]
    else [c]

/-- A string with its quotes. -/
def quote (s : String) : List Char := '"' :: s.toList.flatMap escape ++ ['"']

/-- How the parts of a value are set apart: what precedes an item, and what follows a key. -/
structure Layout where
  lineBreak : Nat → List Char
  colon : List Char

/-- Everything on one line, without blanks. -/
def Layout.compact : Layout := ⟨fun _ => [], [':']⟩

/-- One item a line, two spaces a level. -/
def Layout.indented : Layout := ⟨fun depth => '\n' :: List.replicate (2 * depth) ' ', [':', ' ']⟩

mutual

/-- The text of a value that stands at a depth. -/
def Value.print (layout : Layout) (depth : Nat) : Value → List Char
  | .null => "null".toList
  | .bool true => "true".toList
  | .bool false => "false".toList
  | .number literal => literal.toList
  | .text content => quote content
  | .array [] => "[]".toList
  | .array (v :: vs) =>
    '[' :: layout.lineBreak (depth + 1) ++ v.print layout (depth + 1) ++ printItems layout (depth + 1) vs ++
      layout.lineBreak depth ++ [']']
  | .object [] => ['\x7b', '\x7d']
  | .object (m :: ms) =>
    '\x7b' :: layout.lineBreak (depth + 1) ++ quote m.1 ++ layout.colon ++ m.2.print layout (depth + 1) ++
      printMembers layout (depth + 1) ms ++ layout.lineBreak depth ++ ['\x7d']
  | .unreadable => "null".toList

/-- The items behind the first, each after a comma. -/
def printItems (layout : Layout) (depth : Nat) : List Value → List Char
  | [] => []
  | v :: vs => ',' :: layout.lineBreak depth ++ v.print layout depth ++ printItems layout depth vs

/-- The members behind the first, each after a comma. -/
def printMembers (layout : Layout) (depth : Nat) : List (String × Value) → List Char
  | [] => []
  | m :: ms =>
    ',' :: layout.lineBreak depth ++ quote m.1 ++ layout.colon ++ m.2.print layout depth ++
      printMembers layout depth ms

end

/-- A value on one line. -/
def Value.compact (v : Value) : String := String.ofList (v.print .compact 0)

/-- A value with one item a line. -/
def Value.pretty (v : Value) : String := String.ofList (v.print .indented 0)

end EntityWeaver.Json
