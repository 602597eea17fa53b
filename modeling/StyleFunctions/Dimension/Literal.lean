import StyleFunctions.Decimal.Literal
import StyleFunctions.Dimension.Basic
import StyleFunctions.Text.Blank

/-! Reading a number with its unit, such as `12px`, `-1.5e2ms`, `50%` or `.5`. -/

namespace StyleFunctions

/-- Why a text is no dimension. -/
inductive LiteralError where
  | empty
  | invalidNumber (text : String)
  | invalidUnit (text : String)
  deriving DecidableEq, Repr

def LiteralError.message : LiteralError → String
  | .empty => "Empty dimension literal"
  | .invalidNumber text => "Invalid number format: " ++ text
  | .invalidUnit text => "Invalid unit: " ++ text

namespace Dimension

/-- A unit is a percent sign or any run of ASCII letters, also an empty one. -/
def isUnit (cs : List Char) : Bool := cs == ['%'] || cs.all Char.isAlpha

variable {α : Type} [Scalar α]

/-- Blanks around the literal are ignored, none may stand in it. -/
def ofChars (input : List Char) : Except LiteralError (Dimension α) :=
  match Text.trim input with
  | [] => .error .empty
  | cs =>
    let (number, unit) := NumberText.scan cs
    match number.decimal? with
    | none => .error (.invalidNumber (.ofList number.chars))
    | some d =>
      if isUnit unit then .ok ⟨Scalar.ofDecimal d, .ofList unit⟩
      else .error (.invalidUnit (.ofList unit))

def ofText (input : String) : Except LiteralError (Dimension α) := ofChars input.toList

end Dimension

end StyleFunctions
