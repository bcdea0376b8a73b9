import EntityWeaver.Text.Blank

/-! Method bodies: the statement text that is spliced into a generated method.

    A body of blanks has no statements. In any other, the local spelling `self()` becomes `this`; and
    where the statements run in a helper of their own, a bare `return;` becomes `return false;`, by
    which the helper tells its caller to stop. That second step is one scan of the text:

          code ──quote──▶ literal ──same quote──▶ code          depth  + 1 at an opening brace
            │              │    ▲                                      - 1 at a closing one
            │          backslash │
          `return ;`       ▼    │                                nested  depths at which a lambda or an
            ▼            escaped ┘                                       anonymous class was opened
          replaced

    Returns inside a lambda or an anonymous class belong to it and stay; so does everything in string
    and character literals, which run to the end of the text when nothing closes them. -/

namespace EntityWeaver.MethodBody

open Text

/-- What a bare return in the text is to do. -/
inductive Exit where
  /-- It ends whatever the text is part of. -/
  | keep
  /-- It tells the caller to stop. -/
  | signal
  deriving Repr, DecidableEq

/-- Put `this` for `self()`. -/
def replaceSelf (s : List Char) : List Char := replace "self()".toList "this".toList s

/-- How many characters a bare return at the front of a text takes: the word, blanks and a semicolon. -/
def bareReturn? (s : List Char) : Option Nat := do
  let after ← afterStart? "return".toList s
  match after.dropWhile isBlank with
  | ';' :: _ => some ("return".length + (after.takeWhile isBlank).length + 1)
  | _ => none

/-- A character that cannot come right before a word. -/
def isWordChar (c : Char) : Bool := c.isAlphanum || c == '_'

/-- Whether a word can start behind the text, given reversed. -/
def atWordStart (before : List Char) : Bool := !(before.head?.any isWordChar)

/-- The text before the parenthesis that opens what closes at the front, `depth` being still open;
    texts are reversed. -/
def beforeOpening? (depth : Nat) : List Char → Option (List Char)
  | [] => none
  | ')' :: rest => beforeOpening? (depth + 1) rest
  | '(' :: rest => if depth ≤ 1 then some rest else beforeOpening? (depth - 1) rest
  | _ :: rest => beforeOpening? depth rest

/-- What sets words apart before an instance creation. -/
def isWordBreak (c : Char) : Bool :=
  isBlank c || c == '=' || c == '(' || c == ',' || c == '!' || c == '?' || c == ':'

/-- Whether a reversed text that starts with a closing parenthesis creates an instance: the word
    before the one that the parentheses follow is `new`. -/
def opensClass (before : List Char) : Bool :=
  match beforeOpening? 0 before with
  | none => false
  | some head => ((head.splitOnP isWordBreak).filter (· ≠ []))[1]? == some "new".toList.reverse

/-- Whether a brace behind the reversed text opens a lambda or an anonymous class. -/
def opensNested (before : List Char) : Bool :=
  match trimStart before with
  | '>' :: '-' :: _ => true
  | ')' :: rest => opensClass (')' :: rest)
  | _ => false

/-- What the scan is in the middle of. -/
inductive Mode where
  | code
  | literal (quote : Char)
  | escaped (quote : Char)
  | replaced (left : Nat)
  deriving Repr, DecidableEq

/-- The state of the scan: the text passed, reversed, and what it leaves open. -/
structure Scan where
  before : List Char := []
  depth : Int := 0
  nested : List Int := []
  mode : Mode := .code
  deriving Repr

namespace Scan

/-- A character of code: the state behind it and what is written for it. -/
def code (s : Scan) (c : Char) (rest : List Char) : Scan × List Char :=
  let passed := { s with before := c :: s.before }
  if c = '"' ∨ c = '\'' then ({ passed with mode := .literal c }, [c])
  else if c = '\x7b' then
    let nested := if opensNested s.before then s.depth :: s.nested else s.nested
    ({ passed with depth := s.depth + 1, nested }, [c])
  else if c = '\x7d' then
    let nested := if s.nested.head? = some (s.depth - 1) then s.nested.tail else s.nested
    ({ passed with depth := s.depth - 1, nested }, [c])
  else if s.nested = [] ∧ atWordStart s.before then
    match bareReturn? (c :: rest) with
    | some n => ({ passed with mode := .replaced (n - 1) }, "return false;".toList)
    | none => (passed, [c])
  else (passed, [c])

/-- One character of the text, of which `rest` follows. -/
def step (s : Scan) (c : Char) (rest : List Char) : Scan × List Char :=
  match s.mode with
  | .code => s.code c rest
  | .literal q =>
    let mode := if c = '\\' then .escaped q else if c = q then .code else .literal q
    ({ s with before := c :: s.before, mode }, [c])
  | .escaped q => ({ s with before := c :: s.before, mode := .literal q }, [c])
  | .replaced (n + 1) => ({ s with before := c :: s.before, mode := .replaced n }, [])
  | .replaced 0 => ({ s with mode := .code }.code c rest)

/-- What the scan writes for a text. -/
def run (s : Scan) : List Char → List Char
  | [] => []
  | c :: rest => (s.step c rest).2 ++ run (s.step c rest).1 rest

end Scan

/-- Put `return false;` for the bare returns of a text that are its own. -/
def signalReturns (s : List Char) : List Char := ({} : Scan).run s

/-- The statements of a body, none if it is blank. -/
def statements? (body : String) (exit : Exit) : Option String :=
  if isBlankText body then none
  else
    let text := replaceSelf body.toList
    some (String.ofList (match exit with
      | .keep => text
      | .signal => signalReturns text))

end EntityWeaver.MethodBody
