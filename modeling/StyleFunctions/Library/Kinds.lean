import StyleFunctions.Arguments

/-! Tests of the kind of a value, and the reading of a color. -/

namespace StyleFunctions

inductive KindTest where
  | isColor
  | isNumber
  | isString
  | isKeyword
  | isUrl
  | isPixel
  | isPercentage
  | isEm
  deriving DecidableEq, Repr

namespace KindTest

def all : List KindTest :=
  [.isColor, .isNumber, .isString, .isKeyword, .isUrl, .isPixel, .isPercentage, .isEm]

def name : KindTest → String
  | .isColor => "iscolor"
  | .isNumber => "isnumber"
  | .isString => "isstring"
  | .isKeyword => "iskeyword"
  | .isUrl => "isurl"
  | .isPixel => "ispixel"
  | .isPercentage => "ispercentage"
  | .isEm => "isem"

/-- Keywords and addresses are strings as any other. A string that stands for a color is a color,
too. -/
def holds {α : Type} (test : KindTest) (context : Context α) (t : Token α) : Bool :=
  match test with
  | .isColor =>
    match t with
    | .color _ => true
    | .string s => (context.resolveColor s.content).isSome
    | _ => false
  | .isNumber => t.kind == .number
  | .isString | .isKeyword | .isUrl => t.kind == .string
  | .isPixel => t.hasUnit "px"
  | .isPercentage => t.hasUnit "%"
  | .isEm => t.hasUnit "em"

end KindTest

namespace Library

variable {α : Type}

def colorSignature : Signature where
  name := "color"
  description := "Parse a color keyword or hex string"
  usage := "color(value)"
  parameters := [.required "value" "Color|String" "Color, keyword or hex string"]
  returns := "Color"
  examples := ["color(\"#fc0\") → #ffcc00", "color(red) → #ff0000"]
  category := "types"
  related := ["iscolor", "rgb"]

def asColor (context : Context α) : Token α → Except Fault (Value α)
  | .color c => .ok (.color c)
  | .string t =>
    match context.resolveColor t.content with
    | some c => .ok (.color c)
    | none => .error .unknownColor
  | _ => .error .notString

def color : Builtin α where
  signature := colorSignature
  call context arguments := .ofExcept do asColor context (← Arguments.only "color" arguments)

def kindTestSignature (test : KindTest) : Signature where
  name := test.name
  description := "Test the kind or unit of a value"
  usage := "isX(value)"
  parameters := [.required "value" "Any" "Value to test"]
  returns := "Bool"
  examples := []
  category := "types"
  related := ["isunit"]

def kindTest (test : KindTest) : Builtin α where
  signature := kindTestSignature test
  call context arguments := .ofExcept do
    return .bool (test.holds context (← Arguments.only test.name arguments))

def isUnitSignature : Signature where
  name := "isunit"
  description := "Test whether a number carries the given unit"
  usage := "isunit(value, unit)"
  parameters :=
    [.required "value" "Any" "Value to test", .required "unit" "String" "Unit name, e.g. px"]
  returns := "Bool"
  examples := ["isunit(11px, px) → true", "isunit(11, px) → false"]
  category := "types"
  related := ["ispixel", "isem", "ispercentage"]

/-- No value has a unit that is not given by a string. -/
def isUnit : Builtin α :=
  .standalone isUnitSignature fun
    | [t, .string unit] => return .bool (t.hasUnit unit.content)
    | [_, _] => return .bool false
    | arguments => .error (.argumentCount "isunit" (.exactly 2) arguments.length)

/-- The functions on the kinds of values. -/
def kinds : List (Builtin α) := color :: isUnit :: KindTest.all.map kindTest

end Library

end StyleFunctions
