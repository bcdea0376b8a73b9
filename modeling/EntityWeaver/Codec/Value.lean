import EntityWeaver.Codec.BinaryFloat
import EntityWeaver.Codec.MessagePack
import EntityWeaver.Codec.Table

/-! The reference codec: the values of an entity's fields as one frame of bytes.

    A frame carries a revision number and the values of the serialized fields in stream order, each
    tagged with its kind. Encoding writes it as an array of two; decoding also takes a map with the
    same two keys, any form of an integer that fits, and any number for a floating-point field. A blob
    stands for the array of its bytes, so only an empty one can carry values.

        encode   fields ─ serialized order ─→ values ─→ [revision, [{kind: value} …]] ─→ bytes
        decode   bytes ─→ frame ─ as many values as fields, kinds agree ─→ values by name -/

namespace EntityWeaver

/-- The value of a field of a primitive type; floating-point values are bit patterns. -/
inductive FieldValue where
  | bool (b : Bool)
  | byte (n : Int8)
  | short (n : Int16)
  | int (n : Int32)
  | long (n : Int64)
  | float (bits : UInt32)
  | double (bits : UInt64)
  | str (s : String)
  deriving Repr, DecidableEq

/-- Why field values cannot be encoded or decoded. -/
inductive CodecError where
  | malformedFrame
  | noCodec (type : String)
  | valueMismatch (field expected : String)
  | missingValue (field : String)
  | layoutMismatch (expected found : Nat)
  deriving Repr, DecidableEq

def CodecError.message : CodecError → String
  | .malformedFrame => "failed to decode fields"
  | .noCodec type => "no codec for type `" ++ type ++ "`"
  | .valueMismatch field expected => "value for field `" ++ field ++ "` is not a `" ++ expected ++ "`"
  | .missingValue field => "missing value for field `" ++ field ++ "`"
  | .layoutMismatch expected found =>
    "decoded " ++ Text.digits found ++ " values, expected " ++ Text.digits expected

namespace Primitive

/-- The primitive types in the order of their tags. -/
def all : List Primitive := [.bool, .byte, .short, .int, .long, .float, .double, .str]

/-- The tag of a value of the type. -/
def tag : Primitive → String
  | .bool => "Bool"
  | .byte => "Byte"
  | .short => "Short"
  | .int => "Int"
  | .long => "Long"
  | .float => "Float"
  | .double => "Double"
  | .str => "Str"

/-- The type with that tag, written as a text or as its place in the order. -/
def ofTag? : MessagePack → Option Primitive
  | .str content | .bin content => all.find? fun p => p.tag.toUTF8.data.toList == content
  | .unsigned n => all[n]?
  | _ => none

end Primitive

namespace MessagePack

/-- A text. -/
def ofString (s : String) : MessagePack := .str s.toUTF8.data.toList

/-- The text of a text or a blob that is one. -/
def string? : MessagePack → Option String
  | .str content | .bin content => String.fromUTF8? ⟨content.toArray⟩
  | _ => none

/-- The items of an array, or of a blob, each byte an integer. -/
def items? : MessagePack → Option (List MessagePack)
  | .array items => some items
  | .bin content => some (content.map fun b => .unsigned b.toNat)
  | _ => none

/-- The value of an integer in either form. -/
def int? : MessagePack → Option Int
  | .unsigned n => some n
  | .signed n => some n
  | _ => none

/-- An integer within bounds. -/
def intWithin? (least most : Int) (p : MessagePack) : Option Int :=
  p.int?.filter fun n => least ≤ n && n ≤ most

/-- An integer of so many bits. -/
def signed? (bits : Nat) (p : MessagePack) : Option Int :=
  let half : Nat := 1 <<< (bits - 1)
  p.intWithin? (-half) (half - 1)

/-- A number as the bit pattern of a format. -/
def float? (f : BinaryFloat.Format) : MessagePack → Option Nat
  | .single bits =>
    some (if f = .single then bits.toNat else BinaryFloat.convert .single f bits.toNat)
  | .double bits =>
    some (if f = .double then bits.toNat else BinaryFloat.convert .double f bits.toNat)
  | .unsigned n => some (BinaryFloat.ofInt f n)
  | .signed n => some (BinaryFloat.ofInt f n)
  | _ => none

end MessagePack

namespace FieldValue

/-- The type of a value. -/
def primitive : FieldValue → Primitive
  | .bool _ => .bool
  | .byte _ => .byte
  | .short _ => .short
  | .int _ => .int
  | .long _ => .long
  | .float _ => .float
  | .double _ => .double
  | .str _ => .str

/-- A value without its tag. -/
def payload : FieldValue → MessagePack
  | .bool b => .bool b
  | .byte n => .signed n.toInt
  | .short n => .signed n.toInt
  | .int n => .signed n.toInt
  | .long n => .signed n.toInt
  | .float bits => .single bits
  | .double bits => .double bits
  | .str s => .ofString s

/-- The value of a type that a payload carries. -/
def ofPayload? : Primitive → MessagePack → Option FieldValue
  | .bool, .bool b => some (.bool b)
  | .bool, _ => none
  | .byte, p => (p.signed? 8).map fun n => .byte (.ofInt n)
  | .short, p => (p.signed? 16).map fun n => .short (.ofInt n)
  | .int, p => (p.signed? 32).map fun n => .int (.ofInt n)
  | .long, p => (p.signed? 64).map fun n => .long (.ofInt n)
  | .float, p => (p.float? .single).map fun bits => .float (.ofNat bits)
  | .double, p => (p.float? .double).map fun bits => .double (.ofNat bits)
  | .str, p => p.string?.map .str

/-- A value with its tag. -/
def pack (v : FieldValue) : MessagePack := .map [(.ofString v.primitive.tag, v.payload)]

/-- The tagged value that a map of one entry carries. -/
def ofPack? : MessagePack → Option FieldValue
  | .map [(tag, payload)] => (Primitive.ofTag? tag).bind (ofPayload? · payload)
  | _ => none

end FieldValue

/-- What one frame carries. -/
structure Frame where
  revision : UInt16
  values : List FieldValue
  deriving Repr, DecidableEq

namespace Frame

/-- The part of a frame that a key names. -/
inductive Key where
  | revision | values | unknown
  deriving Repr, DecidableEq

/-- The part that a key names: by name or by place, none if the key is neither. -/
def Key.ofPack? : MessagePack → Option Key
  | .str content | .bin content =>
    some (if content == "revision".toUTF8.data.toList then .revision
      else if content == "values".toUTF8.data.toList then .values else .unknown)
  | .unsigned 0 => some .revision
  | .unsigned 1 => some .values
  | .unsigned _ => some .unknown
  | _ => none

/-- The frame with the two parts. -/
def ofParts? (revision values : MessagePack) : Option Frame := do
  let n ← revision.intWithin? 0 0xffff
  return ⟨.ofNat n.toNat, ← (← values.items?).mapM FieldValue.ofPack?⟩

/-- The frame that an array of its parts or a map to them carries. -/
def ofPack? : MessagePack → Option Frame
  | .array [revision, values] => ofParts? revision values
  | .map entries => do
    let parts ← entries.mapM fun e => (Key.ofPack? e.1).map (·, e.2)
    match parts.filter (·.1 == .revision), parts.filter (·.1 == .values) with
    | [(_, revision)], [(_, values)] => ofParts? revision values
    | _, _ => none
  | _ => none

/-- A frame as an array of its parts. -/
def pack (f : Frame) : MessagePack :=
  .array [.unsigned f.revision.toNat, .array (f.values.map FieldValue.pack)]

/-- The bytes of a frame. -/
def encode (f : Frame) : Bytes := f.pack.encode

/-- The frame at the front of the bytes; what follows it is not looked at. -/
def decode? (bytes : Bytes) : Option Frame :=
  (MessagePack.decode? bytes).bind fun (p, _) => ofPack? p

end Frame

/-- Field values by name. -/
abbrev FieldValues := SortedMap String FieldValue

namespace CodecTable

/-- The primitive type that carries a field, if the field has one. -/
def primitiveOf (t : CodecTable) (f : FieldDecl) : Except CodecError Primitive :=
  match t.writer? f.type false with
  | some (.primitive p) => .ok p
  | _ => .error (.noCodec f.type)

/-- A value of the field's type. -/
def checked (t : CodecTable) (f : FieldDecl) (v : FieldValue) : Except CodecError FieldValue := do
  let expected ← t.primitiveOf f
  if v.primitive = expected then .ok v else .error (.valueMismatch f.name expected.typeName)

/-- The value given for a field. -/
def valueOf (t : CodecTable) (values : FieldValues) (f : FieldDecl) :
    Except CodecError FieldValue := do
  let _ ← t.primitiveOf f
  match values.get? f.name with
  | none => .error (.missingValue f.name)
  | some v => t.checked f v

/-- The bytes of the serialized fields' values. -/
def encodeFields (t : CodecTable) (revision : UInt16) (fields : List FieldDecl)
    (values : FieldValues) : Except CodecError Bytes := do
  let vs ← (FieldDecl.serialized fields).mapM (t.valueOf values)
  return (Frame.mk revision vs).encode

/-- The revision and the values that bytes carry for the serialized fields. -/
def decodeFields (t : CodecTable) (fields : List FieldDecl) (bytes : Bytes) :
    Except CodecError (UInt16 × FieldValues) :=
  match Frame.decode? bytes with
  | none => .error .malformedFrame
  | some frame => do
    let layout := FieldDecl.serialized fields
    if layout.length ≠ frame.values.length then
      .error (.layoutMismatch layout.length frame.values.length)
    let vs ← (layout.zip frame.values).mapM fun (f, v) => (t.checked f v).map (f.name, ·)
    return (frame.revision, .ofList vs)

end CodecTable

end EntityWeaver
