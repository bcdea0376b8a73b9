import EntityWeaver.Proofs.Except
import EntityWeaver.Proofs.MethodBody.Utf8
import EntityWeaver.Proofs.Text.Lines
import EntityWeaver.Source.CodeBlock

/-! Verbatim text: what is kept of it.

    The lines with content are moved to the left together, by the blanks that all of them start with.

        ␣␣⏎
        ␣␣␣␣if(dead) {␣␣⏎            if(dead) {
        ␣⏎                   ──▶
        ␣␣␣␣␣␣kill();⏎                 kill();
        ␣␣␣␣}⏎                       }

    Blank lines at both ends are dropped, those in between become empty. The margin is counted in bytes;
    where blanks take one byte each it ends between two characters of every line, so that the cut never
    fails and takes nothing but blanks. One line starts at the margin, so what is kept cannot be moved
    any further: its text is kept as it is. -/

namespace EntityWeaver.CodeBlock

open Text MethodBody

/-- The blanks in front of a line take one byte each. -/
def Narrow (line : List Char) : Prop := ∀ c ∈ line.takeWhile isBlank, c.utf8Size = 1

instance decidableNarrow (line : List Char) : Decidable (Narrow line) :=
  decidable_of_iff ((line.takeWhile isBlank).all (·.utf8Size = 1) = true) (by simp [Narrow])

/-- What is kept of a line, by the bytes that are cut in front. -/
inductive Keeps (margin : Nat) : List Char → List Char → Prop
  | blank {line : List Char} (h : Blanks line) : Keeps margin line []
  | cut {front kept back : List Char} (hfront : Blanks front) (hsize : byteSize front = margin)
      (hlast : ∃ c ∈ kept.getLast?, isBlank c = false) (hback : Blanks back) :
      Keeps margin (front ++ kept ++ back) kept

variable {line kept : List Char} {m : Nat}

/-! ### Cutting a line -/

theorem Keeps.subset (h : Keeps m line kept) : kept ⊆ line := by
  cases h with
  | blank _ => exact List.nil_subset _
  | cut _ _ _ _ => exact fun c hc => List.mem_append_left _ (List.mem_append_right _ hc)

theorem Keeps.getLast? (h : Keeps m line kept) {c : Char} (hc : c ∈ kept.getLast?) :
    isBlank c = false := by
  cases h with
  | blank _ => cases hc
  | cut _ _ hlast _ =>
    obtain ⟨d, hd, hvisible⟩ := hlast
    rwa [Option.mem_unique hc hd]

variable {lines : List (List Char)}

theorem core_eq_nil (h : ∀ line ∈ lines, line = []) : core lines = [] := by
  have hnone : lines.dropWhile (· = []) = [] :=
    List.dropWhile_eq_nil_iff.2 fun line hline => decide_eq_true (h line hline)
  rw [core, hnone]
  rfl

variable {body : List (List Char)}

variable {text : String}

example : verbatim? "\n  if(dead) \x7b\r\n \n \t\tkill(); \r\n  \x7d\n " =
    some ["if(dead) \x7b", "", "\tkill();", "\x7d"] := by decide

end EntityWeaver.CodeBlock
