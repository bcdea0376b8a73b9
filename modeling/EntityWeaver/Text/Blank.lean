/-! Blank characters and the cutting of texts.

    A character is blank when it has the White_Space property of Unicode; a text is trimmed by
    dropping blanks from its ends, and a text of blanks alone says nothing. Texts are lists of
    characters here, so that every rule is a recursion on the list. -/

namespace EntityWeaver.Text

/-- The 25 characters of the White_Space property. -/
def isBlank (c : Char) : Bool :=
  let n := c.toNat
  (0x9 ≤ n && n ≤ 0xD) || n == 0x20 || n == 0x85 || n == 0xA0 || n == 0x1680 ||
    (0x2000 ≤ n && n ≤ 0x200A) || n == 0x2028 || n == 0x2029 || n == 0x202F || n == 0x205F ||
    n == 0x3000

/-- Drop the blanks a text starts with. -/
def trimStart (s : List Char) : List Char := s.dropWhile isBlank

/-- Drop the blanks a text ends with. -/
def trimEnd (s : List Char) : List Char := (s.reverse.dropWhile isBlank).reverse

/-- Drop the blanks at both ends. -/
def trim (s : List Char) : List Char := trimEnd (trimStart s)

/-- A text without any character but blanks. -/
def isBlankText (s : String) : Bool := s.toList.all isBlank

/-- The rest of `s` behind `w`, if `s` starts with `w`. -/
def afterStart? (w s : List Char) : Option (List Char) :=
  if w.isPrefixOf s then some (s.drop w.length) else none

/-- The part of `s` before `w`, if `s` ends with `w`. -/
def beforeEnd? (w s : List Char) : Option (List Char) :=
  if w.isSuffixOf s then some (s.take (s.length - w.length)) else none

/-- Put `new` for every occurrence of the nonempty `old`, from the left and without overlap; the
    first `skip` characters belong to an occurrence already replaced. -/
def replaceFrom (old new : List Char) : Nat → List Char → List Char
  | _, [] => []
  | skip + 1, _ :: rest => replaceFrom old new skip rest
  | 0, c :: rest =>
    if old.isPrefixOf (c :: rest) then new ++ replaceFrom old new (old.length - 1) rest
    else c :: replaceFrom old new 0 rest

/-- Put `new` for every occurrence of `old`. -/
def replace (old new s : List Char) : List Char := replaceFrom old new 0 s

/-- Whether `w` occurs in `s`. -/
def occursIn (w : List Char) : List Char → Bool
  | [] => w.isEmpty
  | c :: rest => w.isPrefixOf (c :: rest) || occursIn w rest

/-- A line without the carriage return before its line break. -/
def dropReturn (line : List Char) : List Char := (beforeEnd? ['\r'] line).getD line

/-- The lines of a text: a break ends a line, and nothing follows the last break. -/
def lines (s : List Char) : List (List Char) :=
  let pieces := s.splitOn '\n'
  let last := pieces.getLastD []
  pieces.dropLast.map dropReturn ++ (if last.isEmpty then [] else [last])

/-- Bytes a text takes in UTF-8. -/
def byteSize (s : List Char) : Nat := s.foldr (fun c n => c.utf8Size + n) 0

@[simp] theorem trimStart_nil : trimStart [] = [] := rfl

@[simp] theorem trimEnd_nil : trimEnd [] = [] := rfl

end EntityWeaver.Text
