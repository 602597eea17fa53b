import StyleFunctions.Arguments
import StyleFunctions.Quantity.Rounding

/-! Functions on numbers. -/

namespace StyleFunctions.Library

variable {α : Type} [Elementary α] [Numeral α]

def roundSignature : Signature where
  name := "round"
  description := "Round to a number of decimal places, keeping the unit"
  usage := "round(x, [digits])"
  parameters :=
    [.required "x" "Number" "Value to round", .optional "digits" "Number" "Decimal places" "0"]
  returns := "Number"
  examples := ["round(1.67) → 2", "round(3.14159px, 2) → 3.14px"]
  category := "math"
  related := ["floor", "ceil"]

/-- Decimal places are integers from 0 to 100. -/
def decimalPlaces (places : α) : Except Fault UInt32 :=
  if 0 ≤ places ∧ places ≤ 100 ∧ Scalar.isIntegral places = true then
    .ok (.ofNat (Scalar.toNat places))
  else .error (.decimalPlaces (Numeral.text places))

def round : Builtin α :=
  .standalone roundSignature fun arguments => do
    Arguments.expect "round" (.between 1 2) arguments
    let x ← Arguments.number "round" "x" arguments[0]?
    let places ← match arguments[1]? with
      | none => Except.ok 0
      | given => Dimension.value <$> Arguments.number "round" "digits" given
    return .number (x.roundTo (← decimalPlaces places))

def piSignature : Signature where
  name := "pi"
  description := "The constant π"
  usage := "pi()"
  parameters := []
  returns := "Number"
  examples := ["pi() → 3.141592653589793"]
  category := "math"
  related := ["sin", "cos"]

def pi : Builtin α :=
  .standalone piSignature fun arguments => do
    Arguments.expect "pi" (.exactly 0) arguments
    return .number (.plain Elementary.pi)

def modSignature : Signature where
  name := "mod"
  description := "Remainder of a division, with the dividend's unit (or the divisor's)"
  usage := "mod(a, b)"
  parameters := [.required "a" "Number" "Dividend", .required "b" "Number" "Divisor"]
  returns := "Number"
  examples := ["mod(11px, 4) → 3px", "mod(-7, 2) → -1"]
  category := "math"
  related := ["round"]

def mod : Builtin α :=
  .standalone modSignature fun arguments => do
    Arguments.expect "mod" (.exactly 2) arguments
    let a ← Arguments.number "mod" "a" arguments[0]?
    let b ← Arguments.number "mod" "b" arguments[1]?
    return .number ⟨Scalar.rem a.value b.value, if a.isPlain then b.unit else a.unit⟩

def powSignature : Signature where
  name := "pow"
  description := "Raise to a power, keeping the base's unit"
  usage := "pow(base, exponent)"
  parameters :=
    [.required "base" "Number" "Base value, keeps its unit",
     .required "exponent" "Number" "Exponent"]
  returns := "Number"
  examples := ["pow(2px, 3) → 8px"]
  category := "math"
  related := ["sqrt"]

def pow : Builtin α :=
  .standalone powSignature fun arguments => do
    Arguments.expect "pow" (.exactly 2) arguments
    let base ← Arguments.number "pow" "base" arguments[0]?
    let exponent ← Arguments.number "pow" "exponent" arguments[1]?
    return .number ⟨Elementary.pow base.value exponent.value, base.unit⟩

def percentageSignature : Signature where
  name := "percentage"
  description := "Fraction as a percentage"
  usage := "percentage(x)"
  parameters := [.required "x" "Number" "Fraction"]
  returns := "Number"
  examples := ["percentage(0.5) → 50%"]
  category := "math"
  related := ["unit"]

def percentage : Builtin α :=
  .standalone percentageSignature fun arguments => do
    Arguments.expect "percentage" (.exactly 1) arguments
    let x ← Arguments.number "percentage" "x" arguments[0]?
    return .number (.percent (x.value * 100))

/-- The functions on numbers. -/
def numbers : List (Builtin α) := [round, pi, mod, pow, percentage]

end StyleFunctions.Library
