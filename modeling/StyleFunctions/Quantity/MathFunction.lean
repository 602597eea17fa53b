import StyleFunctions.Quantity.Conversion

/-! Functions of one number that know about units. -/

namespace StyleFunctions

/-- What a function of one number does with the unit. -/
inductive UnitRule where
  /-- The function acts on the number and the unit stays. -/
  | keep
  /-- The operand is read as an angle in radians and the result is a plain number. -/
  | ofAngle
  /-- The operand is read as an angle in radians and the result is one, too. -/
  | toAngle
  deriving DecidableEq, Repr

namespace UnitRule

/-- The unit of the result, when the rule fixes it. -/
def resultUnit? : UnitRule → Option String
  | .keep => none
  | .ofAngle => some ""
  | .toAngle => some "rad"

variable {α : Type} [Elementary α]

/-- The radians of an operand. A plain number counts radians, and a unit that measures no angle is
ignored. -/
def radians (operand : Dimension α) : α :=
  if operand.unit == "rad" then operand.value else (convert operand.value operand.unit "rad").value

/-- Applies a function under a rule. A result of fixed unit passes through the table of units as an
angle in radians before it is given that unit. -/
def apply (operation : α → α) (rule : UnitRule) (operand : Dimension α) : Dimension α :=
  match rule.resultUnit? with
  | none => ⟨operation operand.value, operand.unit⟩
  | some unit => ⟨(convert (operation (radians operand)) "rad" "rad").value, unit⟩

end UnitRule

/-- A named function of one number. -/
structure MathFunction (α : Type) where
  name : String
  description : String
  usage : String
  operation : α → α
  rule : UnitRule

namespace MathFunction

variable {α : Type} [Elementary α]

def all : List (MathFunction α) :=
  [⟨"ceil", "Round up, keeping the unit", "ceil(x)", Scalar.ceil, .keep⟩,
   ⟨"floor", "Round down, keeping the unit", "floor(x)", Scalar.floor, .keep⟩,
   ⟨"sqrt", "Square root, keeping the unit", "sqrt(x)", Elementary.sqrt, .keep⟩,
   ⟨"abs", "Absolute value, keeping the unit", "abs(x)", Scalar.abs, .keep⟩,
   ⟨"tan", "Tangent of an angle (unitless means radians)", "tan(angle)", Elementary.tan, .ofAngle⟩,
   ⟨"sin", "Sine of an angle (unitless means radians)", "sin(angle)", Elementary.sin, .ofAngle⟩,
   ⟨"cos", "Cosine of an angle (unitless means radians)", "cos(angle)", Elementary.cos, .ofAngle⟩,
   ⟨"atan", "Arc tangent, in radians", "atan(x)", Elementary.atan, .toAngle⟩,
   ⟨"asin", "Arc sine, in radians", "asin(x)", Elementary.asin, .toAngle⟩,
   ⟨"acos", "Arc cosine, in radians", "acos(x)", Elementary.acos, .toAngle⟩]

def find? (name : String) : Option (MathFunction α) := all.find? fun f => f.name == name

def apply (f : MathFunction α) (operand : Dimension α) : Dimension α :=
  f.rule.apply f.operation operand

end MathFunction

end StyleFunctions
