import StyleFunctions.Arguments
import StyleFunctions.Dimension.Literal

/-! Functions on lists. -/

namespace StyleFunctions.Library

variable {α : Type} [Scalar α]

/-- An item of a list literal: a number where it reads as one, otherwise a keyword. -/
def itemToken (item : String) : Token α :=
  match (Dimension.ofText item : Except LiteralError (Dimension α)) with
  | .ok d => .number d
  | .error _ => .keyword item

/-- The items of a list: a string alone is a list literal, other values are the items themselves. -/
def listItems (context : Context α) : List (Token α) → List (Token α)
  | [.string t] => (context.splitList t.content).map itemToken
  | values => values

/-- How many items a list has. -/
def itemCount (context : Context α) : List (Token α) → Nat
  | [.string t] => (context.splitList t.content).length
  | values => values.length

/-- The item at a position counted from one. -/
def itemAt (items : List (Token α)) (index : α) : Value α :=
  if Scalar.isIntegral index = false ∨ index < 1 ∨ Scalar.ofNat items.length < index then .undefined
  else
    match items[Scalar.toNat index - 1]? with
    | some t => .token t
    | none => .undefined

def listed (name : String) : Parameter := .required name "Any" "List items, or one list string"

def extractSignature : Signature where
  name := "extract"
  description := "Item at a 1-based position; undefined when out of range"
  usage := "extract(values..., index)"
  parameters := [listed "values...", .required "index" "Number" "1-based position"]
  returns := "Any"
  examples := ["extract(\"a,b,c\", 2) → b", "extract(\"a,b,c\", 9) → undefined"]
  category := "list"
  related := ["length"]

def extract : Builtin α where
  signature := extractSignature
  call context arguments := .ofExcept do
    Arguments.expect "extract" (.atLeast 2) arguments
    let index ← Arguments.number "extract" "index" arguments.getLast?
    return itemAt (listItems context arguments.dropLast) index.value

def lengthSignature : Signature where
  name := "length"
  description := "Number of list items"
  usage := "length(values...)"
  parameters := [listed "values..."]
  returns := "Number"
  examples := ["length(\"a, b, c\") → 3", "length(1px, 2px) → 2"]
  category := "list"
  related := ["extract"]

def length : Builtin α where
  signature := lengthSignature
  call context arguments := .number (.plain (Scalar.ofNat (itemCount context arguments)))

/-- The functions on lists. -/
def lists : List (Builtin α) := [extract, length]

end StyleFunctions.Library
