import EntityWeaver.Json.Value

/-! Records in JSON.

    A record is written as an object, whose members may come in any order and may include unknown
    ones, or as an array of its fields in order, of which only trailing ones can be left out. Either
    form is brought to the same table of given fields; `required` and `optional` then read one field.
    A variant is written as its name, or as an object with that one key and its content.

    Reading fails without a reason: the format is fixed, and a misfit of any kind says the same. -/

namespace EntityWeaver.Json

/-- The fields of a record that a value gives, by name. -/
abbrev Members := List (String × Value)

/-- The given fields of a record with these field names, none if the value does not spell one. -/
def Value.members? (fields : List String) : Value → Option Members
  | .object ms =>
    let known := ms.filter fun m => fields.contains m.1
    if (known.map (·.1)).Nodup then some known else none
  | .array vs => if vs.length ≤ fields.length then some (fields.zip vs) else none
  | _ => none

/-- A field that must be given. -/
def Members.required {α : Type} (ms : Members) (name : String) (read? : Value → Option α) : Option α :=
  (ms.lookup name).bind read?

/-- A field that has a value of its own when it is not given. -/
def Members.optional {α : Type} (ms : Members) (name : String) (default : α)
    (read? : Value → Option α) : Option α :=
  match ms.lookup name with
  | none => some default
  | some v => read? v

namespace Value

def text? : Value → Option String
  | .text s => some s
  | _ => none

def bool? : Value → Option Bool
  | .bool b => some b
  | _ => none

/-- An integer within bounds. -/
def intWithin? (least most : Int) : Value → Option Int
  | .number literal => (Text.integer? literal.toList).filter fun n => least ≤ n && n ≤ most
  | _ => none

/-- An unsigned integer of so many bits. -/
def unsigned? (bits : Nat) (v : Value) : Option Nat :=
  (v.intWithin? 0 ((1 <<< bits : Nat) - 1)).map Int.toNat

/-- A signed integer of so many bits. -/
def signed? (bits : Nat) (v : Value) : Option Int :=
  let half : Nat := 1 <<< (bits - 1)
  v.intWithin? (-half) (half - 1)

/-- Null for nothing. -/
def nullable? {α : Type} (read? : Value → Option α) : Value → Option (Option α)
  | .null => some none
  | v => (read? v).map some

/-- A list, read item by item. -/
def list? {α : Type} (read? : Value → Option α) : Value → Option (List α)
  | .array vs => vs.mapM read?
  | _ => none

/-- A table from texts to texts, in the order written. -/
def table? : Value → Option (List (String × String))
  | .object ms => ms.mapM fun m => m.2.text?.map (m.1, ·)
  | _ => none

/-- The name of a variant and its content, if any is written. -/
def variant? : Value → Option (String × Option Value)
  | .text name => some (name, none)
  | .object [(name, content)] => some (name, some content)
  | _ => none

/-- A variant without content: its bare name, or null as its content. -/
def plainVariant? : Value → Option String
  | .text name => some name
  | .object [(name, .null)] => some name
  | _ => none

end Value

end EntityWeaver.Json
