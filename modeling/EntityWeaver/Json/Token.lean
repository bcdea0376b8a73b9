/-! Tokens of JSON text.

    A text is cut into tokens from the left; blanks separate them and are dropped. A string token
    holds its characters with every escape resolved. Escapes name code units of sixteen bits, so a
    string may hold one half of a surrogate pair: it is then well-formed but denotes no text, and its
    token is `unpaired`. Numbers are kept as written, because only integers are ever given a meaning.

        scan   "[1, \"a\"]"   ↦   openArray, number "1", comma, text "a", closeArray -/

namespace EntityWeaver.Json

/-- The lexical elements of JSON. -/
inductive Token where
  | openArray | closeArray | openObject | closeObject | comma | colon
  | null | true | false
  | number (literal : String)
  | text (content : String)
  | unpaired
  deriving Repr, DecidableEq

/-- What a string is made of: characters, and code units named by an escape. -/
inductive Piece where
  | char (c : Char)
  | unit (n : Nat)
  deriving Repr, DecidableEq

/-- The four blanks of JSON. -/
def isSpace (c : Char) : Bool := c == ' ' || c == '\t' || c == '\n' || c == '\r'

/-- The value of a hexadecimal digit. -/
def hexDigit? (c : Char) : Option Nat :=
  if '0' ≤ c ∧ c ≤ '9' then some (c.toNat - 48)
  else if 'a' ≤ c ∧ c ≤ 'f' then some (c.toNat - 87)
  else if 'A' ≤ c ∧ c ≤ 'F' then some (c.toNat - 55)
  else none

/-- The code unit named by four hexadecimal digits. -/
def codeUnit? (a b c d : Char) : Option Nat := do
  pure (((← hexDigit? a) * 16 + (← hexDigit? b)) * 256 + ((← hexDigit? c) * 16 + (← hexDigit? d)))

/-- The character that a one-letter escape stands for. -/
def escaped? : Char → Option Char
  | '"' => some '"'
  | '\\' => some '\\'
  | '/' => some '/'
  | 'b' => some '\x08'
  | 'f' => some '\x0c'
  | 'n' => some '\n'
  | 'r' => some '\r'
  | 't' => some '\t'
  | _ => none

/-- The pieces of a string up to its closing quote, and what follows the quote. -/
def scanString : List Char → Option (List Piece × List Char)
  | [] => none
  | '"' :: rest => some ([], rest)
  | '\\' :: 'u' :: a :: b :: c :: d :: rest => do
    let n ← codeUnit? a b c d
    let (pieces, after) ← scanString rest
    some (.unit n :: pieces, after)
  | '\\' :: e :: rest => do
    let c ← escaped? e
    let (pieces, after) ← scanString rest
    some (.char c :: pieces, after)
  | c :: rest =>
    if c.toNat < 0x20 ∨ c = '\\' then none
    else do
      let (pieces, after) ← scanString rest
      some (.char c :: pieces, after)

def isHighSurrogate (n : Nat) : Bool := 0xD800 ≤ n && n < 0xDC00

def isLowSurrogate (n : Nat) : Bool := 0xDC00 ≤ n && n < 0xE000

/-- The characters that pieces spell; half a surrogate pair spells none. -/
def spell? : List Piece → Option (List Char)
  | [] => some []
  | .char c :: rest => (spell? rest).map (c :: ·)
  | .unit hi :: .unit lo :: rest =>
    if isHighSurrogate hi then
      if isLowSurrogate lo then
        (spell? rest).map (Char.ofNat (0x10000 + (hi - 0xD800) * 0x400 + (lo - 0xDC00)) :: ·)
      else none
    else if isLowSurrogate hi then none
    else (spell? (.unit lo :: rest)).map (Char.ofNat hi :: ·)
  | .unit n :: rest =>
    if isHighSurrogate n || isLowSurrogate n then none
    else (spell? rest).map (Char.ofNat n :: ·)

/-- The token of a string with the given pieces. -/
def Token.ofPieces (pieces : List Piece) : Token :=
  match spell? pieces with
  | some cs => .text (String.ofList cs)
  | none => .unpaired

/-- A run of digits and what follows it. -/
def takeDigits (s : List Char) : List Char × List Char := (s.takeWhile Char.isDigit, s.dropWhile Char.isDigit)

/-- The digits before the point: a leading zero stands alone. -/
def takeWhole : List Char → Option (List Char × List Char)
  | '0' :: rest => some (['0'], rest)
  | s => match takeDigits s with
    | ([], _) => none
    | (ds, rest) => some (ds, rest)

/-- A point and at least one digit, or nothing. -/
def takeFraction : List Char → Option (List Char × List Char)
  | '.' :: rest => match takeDigits rest with
    | ([], _) => none
    | (ds, rest) => some ('.' :: ds, rest)
  | s => some ([], s)

/-- The sign of an exponent, if one is written. -/
def takeSign : List Char → List Char × List Char
  | '+' :: rest => (['+'], rest)
  | '-' :: rest => (['-'], rest)
  | s => ([], s)

/-- An exponent mark, an optional sign and at least one digit, or nothing. -/
def takeExponent : List Char → Option (List Char × List Char)
  | c :: rest =>
    if c = 'e' ∨ c = 'E' then
      let (sign, digits) := takeSign rest
      match takeDigits digits with
      | ([], _) => none
      | (ds, rest) => some (c :: sign ++ ds, rest)
    else some ([], c :: rest)
  | [] => some ([], [])

/-- The literal of a number whose sign has been read, and what follows it. -/
def scanNumber (s : List Char) : Option (List Char × List Char) := do
  let (whole, s) ← takeWhole s
  let (fraction, s) ← takeFraction s
  let (power, s) ← takeExponent s
  some (whole ++ fraction ++ power, s)

/-- One token from a text that does not start with a blank, and what follows it. -/
def scanToken : List Char → Option (Token × List Char)
  | '[' :: rest => some (.openArray, rest)
  | ']' :: rest => some (.closeArray, rest)
  | '\x7b' :: rest => some (.openObject, rest)
  | '\x7d' :: rest => some (.closeObject, rest)
  | ',' :: rest => some (.comma, rest)
  | ':' :: rest => some (.colon, rest)
  | 'n' :: 'u' :: 'l' :: 'l' :: rest => some (.null, rest)
  | 't' :: 'r' :: 'u' :: 'e' :: rest => some (.true, rest)
  | 'f' :: 'a' :: 'l' :: 's' :: 'e' :: rest => some (.false, rest)
  | '"' :: rest => (scanString rest).map fun (pieces, after) => (.ofPieces pieces, after)
  | '-' :: rest =>
    (scanNumber rest).map fun (literal, after) => (.number (String.ofList ('-' :: literal)), after)
  | s => (scanNumber s).map fun (literal, after) => (.number (String.ofList literal), after)

/-- The tokens of a text; `room` bounds their number. -/
def scanWithin : Nat → List Char → Option (List Token)
  | room, s =>
    match room, s.dropWhile isSpace with
    | _, [] => some []
    | 0, _ => none
    | room + 1, c :: rest => do
      let (token, after) ← scanToken (c :: rest)
      (scanWithin room after).map (token :: ·)

/-- The tokens of a text, none if some part of it is no token. -/
def scan (s : String) : Option (List Token) := scanWithin s.length s.toList

end EntityWeaver.Json
