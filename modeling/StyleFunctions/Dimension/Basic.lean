import StyleFunctions.Scalar.Basic

/-! Numbers with a unit. -/

namespace StyleFunctions

/-- A number with the unit it is counted in; a plain number has the empty unit. -/
structure Dimension (α : Type) where
  value : α
  unit : String
  deriving DecidableEq, Repr

/-- The written form of a number in a style sheet: zero has no sign. -/
def numberText {α : Type} [Scalar α] [Numeral α] (x : α) : String :=
  if x == 0 then "0" else Numeral.text x

namespace Dimension

variable {α : Type}

def plain (value : α) : Dimension α := ⟨value, ""⟩

def percent (value : α) : Dimension α := ⟨value, "%"⟩

def isPlain (d : Dimension α) : Bool := d.unit == ""

def isPercent (d : Dimension α) : Bool := d.unit == "%"

/-- The same number counted in another unit, without conversion. -/
def retag (d : Dimension α) (unit : String) : Dimension α := ⟨d.value, unit⟩

variable [Scalar α]

/-- A percentage as a fraction; any other number as it is. -/
def fraction (d : Dimension α) : α :=
  if d.isPercent then d.value / 100 else d.value

/-- A percentage of `full`; any other number as it is. -/
def scaled (d : Dimension α) (full : α) : α :=
  if d.isPercent then d.value * full / 100 else d.value

/-- A fraction as a whole percentage. -/
def percentOfFraction (x : α) : Dimension α := percent (Scalar.round (x * 100))

def text [Numeral α] (d : Dimension α) : String := numberText d.value ++ d.unit

end Dimension

end StyleFunctions
