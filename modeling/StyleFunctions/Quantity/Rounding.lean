import StyleFunctions.Quantity.MathFunction

/-! Rounding to decimal places. -/

namespace StyleFunctions

variable {α : Type} [Elementary α]

/-- From this magnitude on a double has no digits after the point. -/
def integralLimit : α := 4503599627370496

/-- The signed exponent of ten for a count of places: a 32-bit count is read in two's complement. -/
def placesExponent (places : UInt32) : Int := places.toInt32.toInt

/-- Rounds to a multiple of the given power of ten, a half away from zero. Numbers too large to have
such digits stay as they are. -/
def roundAt (exponent : Int) (x : α) : α :=
  let factor := Scalar.intPower 10 exponent
  let scaled := x * factor
  if integralLimit ≤ Scalar.abs x ∨ Scalar.isFinite scaled = false then x
  else Scalar.round scaled / factor

/-- Rounds to decimal places; the unit stays. -/
def Dimension.roundTo (d : Dimension α) (places : UInt32) : Dimension α :=
  UnitRule.keep.apply (roundAt (placesExponent places)) d

end StyleFunctions
