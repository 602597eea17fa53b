import StyleFunctions.Decimal.Basic

/-!
Doubles as exact numbers. Every finite double is a whole multiple of `2 ^ -1074`, the smallest one
above zero, so a magnitude is a natural number in that unit and rounding happens in one place:
`ofRatio`.
-/

namespace StyleFunctions.Binary64

/-- How many units of `2 ^ -1074` make one. -/
def one : Nat := 2 ^ 1074

/-- Bits of positive infinity, which are also the first pattern above the finite doubles. -/
def infinityBits : Nat := 2047 * 2 ^ 52

def isNegative (x : Float) : Bool := 2 ^ 63 ≤ x.toBits.toNat

/-- Bits without the sign. -/
def magnitudeBits (x : Float) : Nat := x.toBits.toNat % 2 ^ 63

/-- Units denoted by the bits of a double without a sign: the fraction field counts them below the
second binade, and each further binade doubles the step. -/
def unitsOfBits (bits : Nat) : Nat :=
  let field := bits / 2 ^ 52
  let fraction := bits % 2 ^ 52
  if field = 0 then fraction else (2 ^ 52 + fraction) * 2 ^ (field - 1)

/-- The magnitude of a finite double, in units. -/
def units (x : Float) : Nat := unitsOfBits (magnitudeBits x)

/-- The integer nearest to a quotient; a half goes to the even neighbour. -/
def roundHalfEven (num den : Nat) : Nat :=
  let q := num / den
  let r := num % den
  if 2 * r < den then q
  else if den < 2 * r then q + 1
  else q + q % 2

theorem roundHalfEven_mul_self (n : Nat) {den : Nat} (pos : 0 < den) :
    roundHalfEven (n * den) den = n := by
  simp [roundHalfEven, Nat.mul_div_cancel n pos, pos]

/-- Bits of the double nearest to `num / den` units. Below `2 ^ 53` units the bits are the number of
units; above, `2 ^ shift` units make one step and each doubling of the step is one more in the
exponent field. -/
def bitsOfRatio (num den : Nat) : Nat :=
  let shift := (num / den).log2 - 52
  min (shift * 2 ^ 52 + roundHalfEven num (den * 2 ^ shift)) infinityBits

def ofMagnitudeBits (negative : Bool) (bits : Nat) : Float :=
  .ofBits (.ofNat (if negative then 2 ^ 63 + bits else bits))

/-- The double nearest to `± num / den` units; a half goes to the even neighbour and what is too
large becomes infinite. -/
def ofRatio (negative : Bool) (num den : Nat) : Float :=
  ofMagnitudeBits negative (bitsOfRatio num den)

/-- The double with the whole magnitude `n`, which needs no rounding below `2 ^ 53`. -/
def ofWhole (negative : Bool) (n : Nat) : Float := ofRatio negative (n * one) 1

/-- The double nearest to a decimal. Outside the tested range of exponents every decimal is rounded
to zero or to infinity. -/
def ofDecimal (d : Decimal) : Float :=
  if d.coefficient = 0 || d.exponent < -(400 + (d.coefficient.log2 : Int)) then
    ofMagnitudeBits d.negative 0
  else if 400 < d.exponent then ofMagnitudeBits d.negative infinityBits
  else ofRatio d.negative (d.numerator * one) d.denominator

/-- Rounds the magnitude of a finite double to a whole number and keeps its sign; infinities and NaN
stay. -/
def mapWhole (f : Bool → Nat → Nat) (x : Float) : Float :=
  if x.isFinite then ofWhole (isNegative x) (f (isNegative x) (units x)) else x

def trunc : Float → Float := mapWhole fun _ n => n / one

def floor : Float → Float :=
  mapWhole fun negative n => if negative then (n + (one - 1)) / one else n / one

def ceil : Float → Float :=
  mapWhole fun negative n => if negative then n / one else (n + (one - 1)) / one

def round : Float → Float := mapWhole fun _ n => (2 * n + one) / (2 * one)

/-- The remainder of an exact division of the magnitudes, with the sign of the dividend. -/
def rem (x y : Float) : Float :=
  if !x.isFinite || y.isNaN || y == 0 then 0 / 0
  else if !y.isFinite then x
  else ofRatio (isNegative x) (units x % units y) 1

def toNat (x : Float) : Nat :=
  if x.isFinite && !isNegative x then units x / one else 0

/-- The place of a double among all bit patterns, the negative ones in reverse before the others. -/
def rank (x : Float) : Int :=
  if isNegative x then -1 - magnitudeBits x else magnitudeBits x

def order (x y : Float) : Ordering := compare (rank x) (rank y)

end StyleFunctions.Binary64
