import StyleFunctions.Decimal.Basic

/-!
The numbers of a style sheet. Every function of the library is written over a `Scalar`, so that the
same text runs on doubles and can be read over exact numbers.
-/

namespace StyleFunctions

/-- Arithmetic, order and rounding. The comparisons are those of the number type: on doubles a NaN
compares false with everything. -/
class Scalar (α : Type) extends Add α, Sub α, Mul α, Div α, Neg α, LT α, LE α, BEq α where
  decideLT : DecidableLT α
  decideLE : DecidableLE α
  ofDecimal : Decimal → α
  abs : α → α
  floor : α → α
  ceil : α → α
  /-- Nearest integer; a half goes away from zero. -/
  round : α → α
  /-- Integer part, toward zero. -/
  trunc : α → α
  /-- Remainder of the division toward zero; it has the sign of the dividend. -/
  rem : α → α → α
  isNaN : α → Bool
  isFinite : α → Bool
  /-- A total order that refines `<`. -/
  order : α → α → Ordering
  /-- Integer part as a natural number; `0` for everything negative or not finite. -/
  toNat : α → Nat

attribute [reducible, instance] Scalar.decideLT Scalar.decideLE

-- A type that brings operations of its own is read with those.
attribute [instance(10)] Scalar.toAdd Scalar.toSub Scalar.toMul Scalar.toDiv Scalar.toNeg
  Scalar.toLT Scalar.toLE Scalar.toBEq Scalar.decideLT Scalar.decideLE

/-- Roots, powers and the circular functions. -/
class Elementary (α : Type) extends Scalar α where
  pi : α
  sqrt : α → α
  pow : α → α → α
  sin : α → α
  cos : α → α
  tan : α → α
  asin : α → α
  acos : α → α
  atan : α → α

/-- The written form of a number: an optional sign and digits with at most one point. -/
class Numeral (α : Type) where
  text : α → String

namespace Scalar

variable {α : Type} [Scalar α]

instance (priority := 10) : OfScientific α where
  ofScientific mantissa fractional places := ofDecimal (.ofScientific mantissa fractional places)

instance (priority := 10) (n : Nat) : OfNat α n where
  ofNat := ofDecimal (.ofNat n)

def ofNat (n : Nat) : α := ofDecimal (.ofNat n)

/-- The larger of two numbers: a NaN gives way to the other one, and of two equal ones the first is
kept. -/
def larger (x y : α) : α :=
  if isNaN x then y else if x < y then y else x

/-- The smaller of two numbers, with the same rules as `larger`. -/
def smaller (x y : α) : α :=
  if isNaN x then y else if y < x then y else x

/-- Restriction to `[lo, hi]`; a NaN stays. -/
def clamp (lo hi x : α) : α :=
  if x < lo then lo else if hi < x then hi else x

/-- Restriction to `[0, 1]`. -/
def clampUnit (x : α) : α := clamp 0 1 x

/-- Remainder moved up by one modulus when it is negative. -/
def cyclic (x modulus : α) : α :=
  let r := rem x modulus
  if r < 0 then r + abs modulus else r

def isIntegral (x : α) : Bool := x - trunc x == 0

/-- `powerLoop fuel base result n` is `result · base ^ n` for `n < 2 ^ fuel`, by squaring from the
lowest binary digit of `n` upwards. -/
def powerLoop : Nat → α → α → Nat → α
  | 0, _, result, _ => result
  | fuel + 1, base, result, n =>
    let result := if n % 2 = 1 then result * base else result
    if n / 2 = 0 then result else powerLoop fuel (base * base) result (n / 2)

/-- An integral power by repeated squaring; a negative one is the reciprocal of the positive. -/
def intPower (base : α) (exponent : Int) : α :=
  let n := exponent.natAbs
  let power := powerLoop (n.log2 + 1) base 1 n
  if exponent < 0 then 1 / power else power

end Scalar

end StyleFunctions
