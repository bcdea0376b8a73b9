/-! Integers in decimal.

    `digits` and `signed` write a number; `natural?` and `integer?` read it back. Reading refuses
    anything but digits behind an optional minus sign, and a negative zero, which is no integer but
    a fraction that happens to be zero. -/

namespace EntityWeaver.Text

/-- A natural number in decimal. -/
def digits (n : Nat) : String := String.ofList (Nat.toDigits 10 n)

/-- An integer in decimal, with a minus sign in front of a negative one. -/
def signed : Int → String
  | .ofNat n => digits n
  | .negSucc n => "-" ++ digits (n + 1)

/-- The number a nonempty run of digits denotes. -/
def natural? (s : List Char) : Option Nat :=
  if s ≠ [] ∧ s.all Char.isDigit then some (Nat.ofDigitChars 10 s 0) else none

/-- The integer that a literal denotes; a fraction, an exponent or a negative zero denotes none. -/
def integer? : List Char → Option Int
  | '-' :: s => match natural? s with
    | some (n + 1) => some (.negSucc n)
    | _ => none
  | s => (natural? s).map .ofNat

end EntityWeaver.Text
