/-! MessagePack: values and their bytes.

    A value is written in the shortest form that its kind has for it; integers that are not negative
    take the unsigned forms. Reading accepts every form. A reading consumes one value from the front
    of the bytes and hands back the rest, and refuses arrays, maps and extensions nested deeper than a
    limit, which is also what the recursion descends on. Texts are kept as bytes: what is skipped need
    not be text. -/

namespace EntityWeaver

abbrev Bytes := List UInt8

/-- A MessagePack value; unsigned and signed forms of an integer are told apart. -/
inductive MessagePack where
  | nil
  | bool (b : Bool)
  | unsigned (n : Nat)
  | signed (n : Int)
  | single (bits : UInt32)
  | double (bits : UInt64)
  | str (content : Bytes)
  | bin (content : Bytes)
  | array (items : List MessagePack)
  | map (entries : List (MessagePack × MessagePack))
  | ext
  deriving Repr, Inhabited

namespace MessagePack

/-- A number in so many bytes, the most significant first. -/
def bigEndian : Nat → Nat → Bytes
  | 0, _ => []
  | width + 1, n => UInt8.ofNat (n >>> (8 * width)) :: bigEndian width n

/-- The number that bytes spell, the most significant first. -/
def ofBigEndian (bytes : Bytes) : Nat := bytes.foldl (fun n b => n * 256 + b.toNat) 0

/-- An unsigned integer in its shortest form. -/
def encodeUnsigned (n : Nat) : Bytes :=
  if n < 0x80 then [UInt8.ofNat n]
  else if n < 0x100 then 0xcc :: bigEndian 1 n
  else if n < 0x10000 then 0xcd :: bigEndian 2 n
  else if n < 0x100000000 then 0xce :: bigEndian 4 n
  else 0xcf :: bigEndian 8 n

/-- An integer in its shortest form. -/
def encodeInt : Int → Bytes
  | .ofNat n => encodeUnsigned n
  | .negSucc n =>
    if n < 0x20 then [UInt8.ofNat (0xff - n)]
    else if n < 0x80 then 0xd0 :: bigEndian 1 (0xff - n)
    else if n < 0x8000 then 0xd1 :: bigEndian 2 (0xffff - n)
    else if n < 0x80000000 then 0xd2 :: bigEndian 4 (0xffffffff - n)
    else 0xd3 :: bigEndian 8 (0xffffffffffffffff - n)

/-- The head of a text of so many bytes. -/
def strHead (size : Nat) : Bytes :=
  if size < 0x20 then [UInt8.ofNat (0xa0 + size)]
  else if size < 0x100 then 0xd9 :: bigEndian 1 size
  else if size < 0x10000 then 0xda :: bigEndian 2 size
  else 0xdb :: bigEndian 4 size

/-- The head of a blob of so many bytes. -/
def binHead (size : Nat) : Bytes :=
  if size < 0x100 then 0xc4 :: bigEndian 1 size
  else if size < 0x10000 then 0xc5 :: bigEndian 2 size
  else 0xc6 :: bigEndian 4 size

/-- The head of an array of so many items. -/
def arrayHead (size : Nat) : Bytes :=
  if size < 0x10 then [UInt8.ofNat (0x90 + size)]
  else if size < 0x10000 then 0xdc :: bigEndian 2 size
  else 0xdd :: bigEndian 4 size

/-- The head of a map of so many entries. -/
def mapHead (size : Nat) : Bytes :=
  if size < 0x10 then [UInt8.ofNat (0x80 + size)]
  else if size < 0x10000 then 0xde :: bigEndian 2 size
  else 0xdf :: bigEndian 4 size

mutual

/-- The bytes of a value. -/
def encode : MessagePack → Bytes
  | .nil => [0xc0]
  | .bool b => [if b then 0xc3 else 0xc2]
  | .unsigned n => encodeUnsigned n
  | .signed n => encodeInt n
  | .single bits => 0xca :: bigEndian 4 bits.toNat
  | .double bits => 0xcb :: bigEndian 8 bits.toNat
  | .str content => strHead content.length ++ content
  | .bin content => binHead content.length ++ content
  | .array items => arrayHead items.length ++ encodeAll items
  | .map entries => mapHead entries.length ++ encodeEntries entries
  | .ext => [0xc7, 0x00, 0x00]

def encodeAll : List MessagePack → Bytes
  | [] => []
  | v :: vs => v.encode ++ encodeAll vs

def encodeEntries : List (MessagePack × MessagePack) → Bytes
  | [] => []
  | e :: es => e.1.encode ++ e.2.encode ++ encodeEntries es

end

/-- The first bytes and the rest, if there are so many. -/
def split? (size : Nat) (bytes : Bytes) : Option (Bytes × Bytes) :=
  if size ≤ bytes.length then some (bytes.splitAt size) else none

/-- A number of so many bytes, and the rest. -/
def number? (width : Nat) (bytes : Bytes) : Option (Nat × Bytes) :=
  (split? width bytes).map fun (head, rest) => (ofBigEndian head, rest)

/-- What bytes of so many bits mean as a signed integer. -/
def toSigned (bits n : Nat) : Int := if n < 1 <<< (bits - 1) then n else (n : Int) - (1 <<< bits : Nat)

/-- Bytes behind a size of so many bytes. -/
def sized? (width : Nat) (bytes : Bytes) : Option (Bytes × Bytes) := do
  let (size, rest) ← number? width bytes
  split? size rest

/-- So many items, one after the other. -/
def times? {α : Type} (item? : Bytes → Option (α × Bytes)) : Nat → Bytes → Option (List α × Bytes)
  | 0, bytes => some ([], bytes)
  | n + 1, bytes => do
    let (x, bytes) ← item? bytes
    let (xs, bytes) ← times? item? n bytes
    some (x :: xs, bytes)

/-- A key and its value. -/
def pair? (item? : Bytes → Option (MessagePack × Bytes)) (bytes : Bytes) :
    Option ((MessagePack × MessagePack) × Bytes) := do
  let (k, bytes) ← item? bytes
  let (v, bytes) ← item? bytes
  some ((k, v), bytes)

/-- A value from the front of the bytes, with at most `depth` arrays, maps and extensions one inside
    the other. -/
def decodeWithin : Nat → Bytes → Option (MessagePack × Bytes)
  | _, [] => none
  | depth, head :: rest =>
    let items (size : Nat) (rest : Bytes) : Option (MessagePack × Bytes) :=
      match depth with
      | 0 => none
      | depth + 1 => (times? (decodeWithin depth) size rest).map fun (vs, rest) => (.array vs, rest)
    let entries (size : Nat) (rest : Bytes) : Option (MessagePack × Bytes) :=
      match depth with
      | 0 => none
      | depth + 1 =>
        (times? (pair? (decodeWithin depth)) size rest).map fun (es, rest) => (.map es, rest)
    let extension (size : Nat) (rest : Bytes) : Option (MessagePack × Bytes) :=
      match depth with
      | 0 => none
      | _ + 1 => (split? (size + 1) rest).map fun (_, rest) => (.ext, rest)
    let n := head.toNat
    if n < 0x80 then some (.unsigned n, rest)
    else if n < 0x90 then entries (n - 0x80) rest
    else if n < 0xa0 then items (n - 0x90) rest
    else if n < 0xc0 then (split? (n - 0xa0) rest).map fun (s, rest) => (.str s, rest)
    else if n ≥ 0xe0 then some (.signed ((n : Int) - 0x100), rest)
    else match n with
      | 0xc0 => some (.nil, rest)
      | 0xc2 => some (.bool false, rest)
      | 0xc3 => some (.bool true, rest)
      | 0xc4 => (sized? 1 rest).map fun (s, rest) => (.bin s, rest)
      | 0xc5 => (sized? 2 rest).map fun (s, rest) => (.bin s, rest)
      | 0xc6 => (sized? 4 rest).map fun (s, rest) => (.bin s, rest)
      | 0xc7 => (number? 1 rest).bind fun (size, rest) => extension size rest
      | 0xc8 => (number? 2 rest).bind fun (size, rest) => extension size rest
      | 0xc9 => (number? 4 rest).bind fun (size, rest) => extension size rest
      | 0xca => (number? 4 rest).map fun (bits, rest) => (.single (.ofNat bits), rest)
      | 0xcb => (number? 8 rest).map fun (bits, rest) => (.double (.ofNat bits), rest)
      | 0xcc => (number? 1 rest).map fun (n, rest) => (.unsigned n, rest)
      | 0xcd => (number? 2 rest).map fun (n, rest) => (.unsigned n, rest)
      | 0xce => (number? 4 rest).map fun (n, rest) => (.unsigned n, rest)
      | 0xcf => (number? 8 rest).map fun (n, rest) => (.unsigned n, rest)
      | 0xd0 => (number? 1 rest).map fun (n, rest) => (.signed (toSigned 8 n), rest)
      | 0xd1 => (number? 2 rest).map fun (n, rest) => (.signed (toSigned 16 n), rest)
      | 0xd2 => (number? 4 rest).map fun (n, rest) => (.signed (toSigned 32 n), rest)
      | 0xd3 => (number? 8 rest).map fun (n, rest) => (.signed (toSigned 64 n), rest)
      | 0xd4 => extension 1 rest
      | 0xd5 => extension 2 rest
      | 0xd6 => extension 4 rest
      | 0xd7 => extension 8 rest
      | 0xd8 => extension 16 rest
      | 0xd9 => (sized? 1 rest).map fun (s, rest) => (.str s, rest)
      | 0xda => (sized? 2 rest).map fun (s, rest) => (.str s, rest)
      | 0xdb => (sized? 4 rest).map fun (s, rest) => (.str s, rest)
      | 0xdc => (number? 2 rest).bind fun (size, rest) => items size rest
      | 0xdd => (number? 4 rest).bind fun (size, rest) => items size rest
      | 0xde => (number? 2 rest).bind fun (size, rest) => entries size rest
      | 0xdf => (number? 4 rest).bind fun (size, rest) => entries size rest
      | _ => none

/-- An integer that is not negative takes an unsigned form. -/
theorem encode_natural (n : Nat) : encode (.signed n) = encode (.unsigned n) := by
  rw [encode, encode]
  rfl

/-- No value is read from no bytes. -/
theorem decodeWithin_nil (depth : Nat) : decodeWithin depth [] = none := by rw [decodeWithin]

/-- How deep arrays, maps and extensions may be nested. -/
def depthLimit : Nat := 1023

/-- A value from the front of the bytes, and the rest. -/
def decode? (bytes : Bytes) : Option (MessagePack × Bytes) := decodeWithin depthLimit bytes

end MessagePack

end EntityWeaver
