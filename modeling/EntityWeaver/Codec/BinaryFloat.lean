/-! Binary floating-point numbers as bit patterns.

    A format has a sign bit, a field of exponent bits and a field of fraction bits. Patterns are
    natural numbers, so that every conversion is exact arithmetic: a magnitude `m · 2^q` is rounded to
    the nearest number of the format, of two equally near ones to that with the even fraction, and a
    magnitude past the last finite number becomes the infinity.

    A number that is none keeps its sign and the leading bits of its fraction, and is made quiet. -/

namespace EntityWeaver.BinaryFloat

/-- A floating-point format, by the widths of its two fields. -/
structure Format where
  exponentBits : Nat
  fractionBits : Nat
  deriving Repr, DecidableEq

namespace Format

/-- Four bytes. -/
def single : Format := ⟨8, 23⟩

/-- Eight bytes. -/
def double : Format := ⟨11, 52⟩

/-- What the exponent field of a number between one and two holds. -/
def bias (f : Format) : Nat := (1 <<< (f.exponentBits - 1)) - 1

/-- The pattern of the infinity. -/
def infinity (f : Format) : Nat := ((1 <<< f.exponentBits) - 1) <<< f.fractionBits

/-- The sign bit of a pattern. -/
def signBit (f : Format) : Nat := 1 <<< (f.exponentBits + f.fractionBits)

end Format

/-- The quotient by `2^s`, rounded to the nearest integer, from the middle to the even one. -/
def shiftRound (m s : Nat) : Nat :=
  let quotient := m >>> s
  let unit := 1 <<< s
  let twice := 2 * (m % unit)
  if unit < twice ∨ (twice = unit ∧ quotient % 2 = 1) then quotient + 1 else quotient

/-- The pattern of the number nearest to `m · 2^q`. -/
def ofMagnitude (f : Format) (m : Nat) (q : Int) : Nat :=
  if m = 0 then 0
  else
    let lowest : Int := 1 - f.bias - f.fractionBits
    let unit : Int := max (m.log2 + q - f.fractionBits) lowest
    let n := if unit ≤ q then m <<< (q - unit).toNat else shiftRound m (unit - q).toNat
    min (((unit - lowest).toNat <<< f.fractionBits) + n) f.infinity

/-- The pattern of an integer. -/
def ofInt (f : Format) : Int → Nat
  | .ofNat n => ofMagnitude f n 0
  | .negSucc n => f.signBit + ofMagnitude f (n + 1) 0

/-- The pattern in one format of the number with a pattern in another. -/
def convert (source target : Format) (bits : Nat) : Nat :=
  let sign := if bits < source.signBit then 0 else target.signBit
  let magnitude := bits % source.signBit
  let exponent := magnitude >>> source.fractionBits
  let fraction := magnitude % (1 <<< source.fractionBits)
  if magnitude = source.infinity then sign + target.infinity
  else if source.infinity < magnitude then
    let quiet := 1 <<< (target.fractionBits - 1)
    let kept := fraction <<< target.fractionBits >>> source.fractionBits
    sign + target.infinity + (quiet + kept % quiet)
  else if exponent = 0 then
    sign + ofMagnitude target fraction (1 - source.bias - source.fractionBits)
  else
    sign + ofMagnitude target ((1 <<< source.fractionBits) + fraction)
      (exponent - source.bias - source.fractionBits)

end EntityWeaver.BinaryFloat
