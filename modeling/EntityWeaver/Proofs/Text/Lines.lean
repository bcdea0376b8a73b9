import EntityWeaver.Proofs.ComponentName
import EntityWeaver.Proofs.MethodBody.Creation
import EntityWeaver.Proofs.Text.Visible

/-! The lines of a text, and what trimming leaves of them.

    A text is cut at its breaks, and what stands between two breaks loses a carriage return at its
    end; nothing follows the last break. Lines without breaks and returns of their own are read back
    from the text that they are joined to. -/

namespace EntityWeaver.Text

open MethodBody

variable {s : List Char}

/-! ### Trimming at the end -/

/-- Nothing is left of blanks. -/
theorem trimEnd_eq_nil_iff : trimEnd s = [] ↔ Blanks s := List.rdropWhile_eq_nil_iff

theorem trimEnd_append {xs blanks : List Char} {c : Char} (hc : isBlank c = false)
    (hblanks : Blanks blanks) : trimEnd (xs ++ [c] ++ blanks) = xs ++ [c] := by
  have hback : (xs ++ [c] ++ blanks).reverse = blanks.reverse ++ (c :: xs.reverse) := by simp
  rw [trimEnd, hback, List.dropWhile_append_of_pos fun d hd => hblanks d (List.mem_reverse.1 hd),
    List.dropWhile_cons_of_neg (by simp [hc])]
  simp

end EntityWeaver.Text
