import StyleFunctions.Color.Rgba

/-! Operands and results of functions. -/

namespace StyleFunctions

/-- A string with the character it was quoted with; a keyword has none. -/
structure Text where
  content : String
  quote : Option Char
  deriving DecidableEq, Repr

namespace Text

def keyword (content : String) : Text := ⟨content, none⟩

/-- Other content in the same quotes. -/
def requote (t : Text) (content : String) : Text := { t with content }

end Text

inductive TokenKind where
  | number
  | color
  | string
  | function
  deriving DecidableEq, Repr

namespace TokenKind

def all : List TokenKind := [.number, .color, .string, .function]

def name : TokenKind → String
  | .number => "number"
  | .color => "color"
  | .string => "string"
  | .function => "function"

end TokenKind

/-- An evaluated operand; a `call` is a function call that was left as written. -/
inductive Token (α : Type) where
  | number (dimension : Dimension α)
  | color (color : Rgba α)
  | string (text : Text)
  | call (name : String) (arguments : List (Token α))
  deriving Repr

namespace Token

variable {α : Type}

def keyword (content : String) : Token α := .string (.keyword content)

def kind : Token α → TokenKind
  | .number _ => .number
  | .color _ => .color
  | .string _ => .string
  | .call _ _ => .function

def dimension? : Token α → Option (Dimension α)
  | .number d => some d
  | _ => none

def color? : Token α → Option (Rgba α)
  | .color c => some c
  | _ => none

def text? : Token α → Option Text
  | .string t => some t
  | _ => none

/-- The unit of a number, empty for everything else. -/
def unit (t : Token α) : String := (t.dimension?.map Dimension.unit).getD ""

def hasUnit (t : Token α) (unit : String) : Bool :=
  match t with
  | .number d => d.unit == unit
  | _ => false

variable [Scalar α] [Numeral α]

mutual

/-- The written form in a style sheet. Strings are written without their quotes. -/
def text : Token α → String
  | .number d => d.text
  | .color c => c.text
  | .string t => t.content
  | .call name arguments => name ++ "(" ++ String.intercalate ", " (texts arguments) ++ ")"

def texts : List (Token α) → List String
  | [] => []
  | t :: ts => text t :: texts ts

end

end Token

end StyleFunctions
