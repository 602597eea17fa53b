import StyleFunctions.Fault
import StyleFunctions.Token

/-! Answers of functions. -/

namespace StyleFunctions

/-- What a call answers. Only `error` is a failure: an `unresolved` call is kept as written, and
`undefined` says that there is no such item. -/
inductive Value (α : Type) where
  | token (token : Token α)
  | bool (truth : Bool)
  | unresolved
  | undefined
  | error (report : Report)
  deriving Repr

namespace Value

variable {α : Type}

def number (d : Dimension α) : Value α := .token (.number d)

def color (c : Rgba α) : Value α := .token (.color c)

def string (t : Text) : Value α := .token (.string t)

def keyword (content : String) : Value α := .token (.keyword content)

/-- A computation that found a fault answers the report of it. -/
def ofExcept : Except Fault (Value α) → Value α
  | .ok v => v
  | .error fault => .error fault.report

def token? : Value α → Option (Token α)
  | .token t => some t
  | _ => none

def dimension? (v : Value α) : Option (Dimension α) := v.token?.bind Token.dimension?

def color? (v : Value α) : Option (Rgba α) := v.token?.bind Token.color?

def text? (v : Value α) : Option Text := v.token?.bind Token.text?

def bool? : Value α → Option Bool
  | .bool b => some b
  | _ => none

def report? : Value α → Option Report
  | .error r => some r
  | _ => none

def isUnresolved : Value α → Bool
  | .unresolved => true
  | _ => false

def isUndefined : Value α → Bool
  | .undefined => true
  | _ => false

def typeName : Value α → String
  | .token t => t.kind.name
  | .bool _ => "bool"
  | .unresolved => "unresolved"
  | .undefined => "undefined"
  | .error _ => "error"

/-- The written form. -/
def text [Scalar α] [Numeral α] : Value α → String
  | .token t => t.text
  | .bool true => "true"
  | .bool false => "false"
  | .unresolved => "#UNRESOLVED"
  | .undefined => "undefined"
  | .error r => "#ERROR: " ++ r.text

end Value

end StyleFunctions
