import EntityWeaver.Text.CaseTable

/-! The lowercase form of a text, by the full mapping of Unicode.

    Every character is lowered on its own, with two exceptions. The dotted capital I becomes two
    characters. A capital sigma becomes the final form at the end of a word and the medial form
    elsewhere: it ends a word when a cased character precedes it and none follows, looking past the
    characters that a word's end ignores. -/

namespace EntityWeaver.Text

/-- Whether a code point lies in one of the ranges. -/
def inRanges (ranges : List (Nat × Nat)) (n : Nat) : Bool :=
  ranges.any fun (first, last) => first ≤ n && n ≤ last

def isCased (c : Char) : Bool := inRanges casedRanges c.toNat

def isIgnorable (c : Char) : Bool := inRanges ignorableRanges c.toNat

/-- Whether the row lowers the code point. -/
def covers (n : Nat) : Nat × Nat × Nat × Int → Bool
  | (first, last, stride, _) => first ≤ n && n ≤ last && (n - first) % stride == 0

/-- A character lowered without regard to its neighbours. -/
def lowerChar (c : Char) : List Char :=
  if c == '\u0130' then ['i', '\u0307']
  else
    match lowerRows.find? (covers c.toNat) with
    | some (_, _, _, offset) => [Char.ofNat (c.toNat + offset).toNat]
    | none => [c]

/-- Whether the first character that counts is cased. -/
def startsCased (s : List Char) : Bool :=
  match s.dropWhile isIgnorable with
  | [] => false
  | c :: _ => isCased c

/-- The lowered form of a text, given the characters before it, nearest first. -/
def lowerAfter (before : List Char) : List Char → List Char
  | [] => []
  | c :: rest =>
    (if c == '\u03A3' then
      [if startsCased before && !startsCased rest then '\u03C2' else '\u03C3']
    else lowerChar c) ++ lowerAfter (c :: before) rest

/-- The lowercase form of a text. -/
def lowercase (s : String) : String := String.ofList (lowerAfter [] s.toList)

end EntityWeaver.Text
