import StyleFunctions.Arguments
import StyleFunctions.Quantity.MathFunction

/-! Functions on units, and the functions of one number. -/

namespace StyleFunctions.Library

variable {α : Type} [Elementary α]

def unitSignature : Signature where
  name := "unit"
  description :=
    "Replace the unit of a number without converting it; removes the unit when none is given"
  usage := "unit(value, [unit])"
  parameters :=
    [.required "value" "Number" "Value to retag", .optional "unit" "String" "New unit" "none"]
  returns := "Number"
  examples := ["unit(5, px) → 5px", "unit(5em) → 5"]
  category := "units"
  related := ["convert"]

def unit : Builtin α :=
  .standalone unitSignature fun arguments => do
    Arguments.expect "unit" (.between 1 2) arguments
    let value ← Arguments.number "unit" "value" arguments[0]?
    match arguments[1]? with
    | none => return .number (value.retag "")
    | given => return .number (value.retag (← Arguments.string "unit" "unit" given).content)

def convertSignature : Signature where
  name := "convert"
  description :=
    "Convert a number to another unit of the same group; other units are left as they are"
  usage := "convert(value, unit)"
  parameters :=
    [.required "value" "Number" "Value to convert",
     .required "unit" "String" "Target unit (e.g. ms, deg, in)"]
  returns := "Number"
  examples := ["convert(1s, ms) → 1000ms", "convert(1in, mm) → 25.4mm", "convert(5m, s) → 5m"]
  category := "units"
  related := ["unit"]

def convert : Builtin α :=
  .standalone convertSignature fun arguments => do
    Arguments.expect "convert" (.exactly 2) arguments
    let value ← Arguments.number "convert" "value" arguments[0]?
    let unit ← Arguments.string "convert" "unit" arguments[1]?
    return .number (StyleFunctions.convert value.value value.unit unit.content)

def mathSignature (f : MathFunction α) : Signature where
  name := f.name
  description := f.description
  usage := f.usage
  parameters := [.required "x" "Number" "Operand, optionally with a unit"]
  returns := "Number"
  examples := []
  category := "math"
  related := ["round", "pow"]

def math (f : MathFunction α) : Builtin α :=
  .standalone (mathSignature f) fun arguments => do
    Arguments.expect f.name (.exactly 1) arguments
    let operand ← Arguments.number f.name "x" arguments[0]?
    return .number (f.apply operand)

/-- The functions on units and of one number. -/
def units : List (Builtin α) := unit :: convert :: MathFunction.all.map math

end StyleFunctions.Library
