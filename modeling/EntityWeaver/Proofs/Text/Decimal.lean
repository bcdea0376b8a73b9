import EntityWeaver.Text.Decimal
import Mathlib.Data.List.Basic

/-! Numbers are read back from their digits.

    The digits of a number denote it, and they keep doing so behind a minus sign. Zero has no sign, so
    the one literal that is refused, a negative zero, is never written. -/

namespace EntityWeaver.Text

/-- The digits of a number denote it. -/
theorem natural?_toDigits (n : Nat) : natural? (Nat.toDigits 10 n) = some n := by
  have hdigits : (Nat.toDigits 10 n).all Char.isDigit = true := List.all_eq_true.2 fun c hc =>
    Nat.isDigit_of_mem_toDigits (by decide) (by decide) hc
  rw [natural?, if_pos ⟨Nat.toDigits_ne_nil, hdigits⟩, Nat.ofDigitChars_ten_toDigits]

/-- A written integer denotes itself. -/
theorem integer?_signed (n : Int) : integer? (signed n).toList = some n := by
  cases n with
  | ofNat n =>
    have hsign : '-' ∉ Nat.toDigits 10 n := fun h =>
      absurd (Nat.isDigit_of_mem_toDigits (by decide) (by decide) h) (by decide)
    rw [signed, digits, String.toList_ofList, integer?, natural?_toDigits]
    · rfl
    · intro s hs
      exact hsign (hs ▸ List.mem_cons_self)
  | negSucc n =>
    have htext : (signed (.negSucc n)).toList = '-' :: Nat.toDigits 10 (n + 1) := by
      simp [signed, digits]
    rw [htext, integer?, natural?_toDigits]

/-- A digit has one byte. -/
theorem utf8ByteSize_digits (n : Nat) : (digits n).utf8ByteSize = (Nat.toDigits 10 n).length := by
  have hbytes : ∀ cs : List Char, (∀ c ∈ cs, c.isDigit = true) →
      (String.ofList cs).utf8ByteSize = cs.length := by
    intro cs hcs
    induction cs with
    | nil => rfl
    | cons c cs ih =>
      obtain ⟨hc, hcs⟩ := List.forall_mem_cons.1 hcs
      have hascii : c.utf8Size = 1 := Char.utf8Size_eq_one_iff.2 <|
        UInt32.le_trans (of_decide_eq_true (Bool.and_eq_true_iff.1 hc).2) (by decide)
      rw [String.ofList_cons, String.utf8ByteSize_append, String.utf8ByteSize_singleton, hascii,
        ih hcs, List.length_cons, Nat.add_comm]
  exact hbytes _ fun c hc => Nat.isDigit_of_mem_toDigits (by decide) (by decide) hc

end EntityWeaver.Text
