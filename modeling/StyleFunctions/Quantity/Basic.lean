import StyleFunctions.Scalar.Basic

/-! Lengths, durations and angles, and the units they are measured in. -/

namespace StyleFunctions

/-- What a unit measures. Units of one quantity convert into each other. -/
inductive Quantity where
  | length
  | duration
  | angle
  deriving DecidableEq, Repr

namespace Quantity

def all : List Quantity := [.length, .duration, .angle]

def name : Quantity → String
  | .length => "length"
  | .duration => "duration"
  | .angle => "angle"

end Quantity

/-- The units that can be converted; every other unit is only a name. -/
inductive Measure where
  | meter
  | centimeter
  | millimeter
  | inch
  | point
  | pica
  | second
  | millisecond
  | radian
  | degree
  | gradian
  | turn
  deriving DecidableEq, Repr

namespace Measure

def all : List Measure :=
  [.meter, .centimeter, .millimeter, .inch, .point, .pica, .second, .millisecond, .radian, .degree,
    .gradian, .turn]

def symbol : Measure → String
  | .meter => "m"
  | .centimeter => "cm"
  | .millimeter => "mm"
  | .inch => "in"
  | .point => "pt"
  | .pica => "pc"
  | .second => "s"
  | .millisecond => "ms"
  | .radian => "rad"
  | .degree => "deg"
  | .gradian => "grad"
  | .turn => "turn"

def quantity : Measure → Quantity
  | .meter | .centimeter | .millimeter | .inch | .point | .pica => .length
  | .second | .millisecond => .duration
  | .radian | .degree | .gradian | .turn => .angle

/-- Meters, seconds or full turns in one unit. -/
def coefficient {α : Type} [Elementary α] : Measure → α
  | .meter => 1
  | .centimeter => 0.01
  | .millimeter => 0.001
  | .inch => 0.0254
  | .point => 0.0254 / 72
  | .pica => 0.0254 / 72 * 12
  | .second => 1
  | .millisecond => 0.001
  | .radian => 1 / (2 * Elementary.pi)
  | .degree => 1 / 360
  | .gradian => 1 / 400
  | .turn => 1

def ofSymbol? (symbol : String) : Option Measure := all.find? fun m => m.symbol == symbol

end Measure

namespace Quantity

/-- The unit in which values of the quantity are compared, and which a plain number is taken to
have. -/
def standard : Quantity → Measure
  | .length => .meter
  | .duration => .second
  | .angle => .radian

def defaultUnit (q : Quantity) : String := q.standard.symbol

def ofUnit? (unit : String) : Option Quantity := (Measure.ofSymbol? unit).map Measure.quantity

/-- The symbols of the units of a quantity, in ascending order. -/
def symbols (q : Quantity) : List String :=
  ((Measure.all.filter fun m => m.quantity == q).map Measure.symbol).mergeSort fun s t =>
    decide (s ≤ t)

end Quantity

end StyleFunctions
