import EntityWeaver.Text.Blank

/-! Code blocks: statement lines that know how deep they stand.

    A block is a list of lines and the depth at which the next one goes. Opening a brace goes one
    deeper, closing one comes back, and a block that has nothing to close stays at the margin.
    Verbatim text keeps its shape: the margin that all its lines share is cut off, and the lines
    before the first and behind the last one with content are dropped. The margin is counted in
    bytes, so a line whose blanks are of mixed widths may have no such cut; then the text is refused. -/

namespace EntityWeaver

/-- A line and its depth. -/
structure CodeLine where
  depth : Nat
  text : String
  deriving Repr, DecidableEq

/-- Lines, and the depth at which the next one goes. -/
structure CodeBlock where
  lines : List CodeLine := []
  depth : Nat := 0
  deriving Repr, DecidableEq, Inhabited

namespace CodeBlock

/-- The block without lines. -/
def empty : CodeBlock := {}

/-- One more line at the present depth. -/
def line (b : CodeBlock) (text : String) : CodeBlock := { b with lines := b.lines ++ [⟨b.depth, text⟩] }

/-- A line that ends in a semicolon. -/
def statement (b : CodeBlock) (text : String) : CodeBlock := b.line (text ++ ";")

/-- Several lines at the present depth. -/
def appendTexts (b : CodeBlock) (texts : List String) : CodeBlock :=
  { b with lines := b.lines ++ texts.map (⟨b.depth, ·⟩) }

/-- Several statements in order. -/
def statements (b : CodeBlock) (texts : List String) : CodeBlock := b.appendTexts (texts.map (· ++ ";"))

def deeper (b : CodeBlock) : CodeBlock := { b with depth := b.depth + 1 }

def shallower (b : CodeBlock) : CodeBlock := { b with depth := b.depth - 1 }

/-- Open a block behind a header. -/
def begin (b : CodeBlock) (header : String) : CodeBlock := (b.line (header ++ " \x7b")).deeper

/-- Close a block and open the next behind a header. -/
def next (b : CodeBlock) (header : String) : CodeBlock :=
  (b.shallower.line ("\x7d " ++ header ++ " \x7b")).deeper

/-- Close a block. -/
def finish (b : CodeBlock) : CodeBlock := b.shallower.line "\x7d"

/-- The lines of another block, from the present depth on. -/
def append (b other : CodeBlock) : CodeBlock :=
  { b with lines := b.lines ++ other.lines.map fun l => ⟨b.depth + l.depth, l.text⟩ }

/-- The line texts, without indentation. -/
def texts (b : CodeBlock) : List String := b.lines.map (·.text)

/-- The bytes of blanks that a line starts with. -/
def leading (line : List Char) : Nat := Text.byteSize (line.takeWhile Text.isBlank)

/-- The lines from the first to the last that is not empty. -/
def core (lines : List (List Char)) : List (List Char) :=
  ((lines.dropWhile (· = [])).reverse.dropWhile (· = [])).reverse

/-- The fewest bytes of blanks that a line with content starts with. -/
def margin (lines : List (List Char)) : Nat :=
  (((lines.filter (· ≠ [])).map leading).min?).getD 0

/-- A line without its first bytes, if they end between two characters. -/
def dropBytes? : Nat → List Char → Option (List Char)
  | 0, line => some line
  | _ + 1, [] => none
  | n + 1, c :: line => if c.utf8Size ≤ n + 1 then dropBytes? (n + 1 - c.utf8Size) line else none

/-- A line without the margin; a shorter one loses its blanks. -/
def cut? (margin : Nat) (line : List Char) : Option (List Char) :=
  if margin ≤ Text.byteSize line then dropBytes? margin line else some (Text.trimStart line)

/-- The lines of verbatim text, none if the margin cuts through a character. -/
def verbatim? (text : String) : Option (List String) :=
  let body := core ((Text.lines text.toList).map Text.trimEnd)
  (body.mapM (cut? (margin body))).map fun ls => ls.map String.ofList

/-- Verbatim text at the present depth. -/
def raw? (b : CodeBlock) (text : String) : Option CodeBlock :=
  (verbatim? text).map b.appendTexts

/-- What one level of depth is written as. -/
def indent : String := "    "

/-- A line as printed; an empty one has no indentation. -/
def renderLine (depth : Nat) (l : CodeLine) : String :=
  if l.text = "" then "\n"
  else String.join (List.replicate (depth + l.depth) indent) ++ l.text ++ "\n"

/-- The lines as printed from a depth on. -/
def render (b : CodeBlock) (depth : Nat) : String := String.join (b.lines.map (renderLine depth))

end CodeBlock

end EntityWeaver
