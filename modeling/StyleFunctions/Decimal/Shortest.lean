import StyleFunctions.Decimal.Positional
import StyleFunctions.Scalar.Binary64

/-! The fewest digits that read back as the same double, and of those the nearest to it. -/

namespace StyleFunctions.Binary64

/-- Whether `coefficient · 10 ^ exponent` reads as the double with these bits. -/
def readsBack (bits coefficient : Nat) (exponent : Int) : Bool :=
  let d : Decimal := ⟨false, coefficient, exponent⟩
  bitsOfRatio (d.numerator * one) d.denominator == bits

/-- Looks for a coefficient of `10 ^ exponent`, then of the next smaller powers of ten. On each grid
only the two neighbours of the value can be the nearest point; of two equally near ones the larger
is taken. With no step left, all digits of the value are written. -/
def searchGrid (bits : Nat) : Nat → Int → Nat × Int
  | 0, _ => (unitsOfBits bits * 5 ^ 1074, -1074)
  | steps + 1, exponent =>
    let num := unitsOfBits bits * 10 ^ (-exponent).toNat
    let den := one * 10 ^ exponent.toNat
    let lower := num / den
    let low := lower ≠ 0 && readsBack bits lower exponent
    let high := readsBack bits (lower + 1) exponent
    if low && (!high || 2 * (num % den) < den) then (lower, exponent)
    else if high then (lower + 1, exponent)
    else searchGrid bits steps (exponent - 1)

/-- A power of ten not below the leading digit of a value with these bits: the value is less than
`2 ^ (log2 + 1)` units. -/
def topExponent (bits : Nat) : Int :=
  ((((unitsOfBits bits).log2 : Int) - 1073) * 30103) / 100000 + 1

/-- Coefficient and exponent of the shortest decimal that reads as the double with these bits. -/
def shortest (bits : Nat) : Nat × Int := searchGrid bits 20 (topExponent bits)

/-- The written form of a double: an optional sign and the positional form of its shortest decimal.
-/
def text (x : Float) : List Char :=
  if x.isNaN then "NaN".toList
  else
    let sign := if isNegative x then ['-'] else []
    let bits := magnitudeBits x
    sign ++
      if !x.isFinite then "inf".toList
      else if bits = 0 then ['0']
      else
        let (coefficient, exponent) := shortest bits
        Decimal.positional coefficient exponent

end StyleFunctions.Binary64
