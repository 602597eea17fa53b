import StyleFunctions.Dimension.Basic
import StyleFunctions.Quantity.Basic

/-! Conversion between the units of one quantity. -/

namespace StyleFunctions

/-- The unit that a value is taken to have when it is converted to `target`: a plain number has the
standard unit of the quantity that is asked for. -/
def assumedUnit (unit target : String) : String :=
  if unit == "" then ((Quantity.ofUnit? target).map Quantity.defaultUnit).getD "" else unit

/-- A value in another unit. When the units do not measure one quantity the value stays, and so does
its unit. -/
def convert {α : Type} [Elementary α] (value : α) (unit target : String) : Dimension α :=
  let source := assumedUnit unit target
  match Measure.ofSymbol? source, Measure.ofSymbol? target with
  | some m, some n =>
    if m.quantity = n.quantity then ⟨value * m.coefficient / n.coefficient, target⟩
    else ⟨value, source⟩
  | _, _ => ⟨value, source⟩

end StyleFunctions
