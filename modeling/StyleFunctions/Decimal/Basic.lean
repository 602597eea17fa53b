/-! Decimal numbers: a sign, a coefficient and a power of ten. -/

namespace StyleFunctions

/-- Powers of natural numbers are the built-in ones, whatever else is imported. -/
@[default_instance high]
instance powNat : Pow Nat Nat := instPowNat

/-- The number `±coefficient · 10 ^ exponent`. -/
structure Decimal where
  negative : Bool
  coefficient : Nat
  exponent : Int
  deriving DecidableEq, Repr

namespace Decimal

/-- The magnitude is `numerator / denominator`; one of the two powers of ten is `1`. -/
def numerator (d : Decimal) : Nat := d.coefficient * 10 ^ d.exponent.toNat

def denominator (d : Decimal) : Nat := 10 ^ (-d.exponent).toNat

theorem denominator_pos (d : Decimal) : 0 < d.denominator :=
  Nat.pow_pos (by decide)

def ofNat (n : Nat) : Decimal := ⟨false, n, 0⟩

/-- A literal with `places` digits after the point, or that many zeros appended. -/
def ofScientific (mantissa : Nat) (fractional : Bool) (places : Nat) : Decimal :=
  ⟨false, mantissa, if fractional then -(places : Int) else places⟩

end Decimal

end StyleFunctions
