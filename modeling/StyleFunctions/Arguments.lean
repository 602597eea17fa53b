import StyleFunctions.Builtin

/-! Reading the arguments of a call. -/

namespace StyleFunctions.Arguments

variable {α : Type}

/-- Refuses a wrong number of arguments. -/
def expect (function : String) (arity : Arity) (arguments : List (Token α)) : Except Fault Unit :=
  if arity.allows arguments.length then .ok ()
  else .error (.argumentCount function arity arguments.length)

/-- The fault of an argument of another kind, or of one that is not there. -/
def mismatch (function parameter : String) (expected : TokenKind) (argument : Option (Token α)) :
    Fault :=
  .argumentType function parameter expected.name
    ((argument.map fun t => t.kind.name).getD "nothing")

/-- The argument of a function that takes exactly one, of any kind. -/
def only (function : String) : List (Token α) → Except Fault (Token α)
  | [t] => .ok t
  | arguments => .error (.argumentCount function (.exactly 1) arguments.length)

def number (function parameter : String) (argument : Option (Token α)) :
    Except Fault (Dimension α) :=
  match argument with
  | some (.number d) => .ok d
  | _ => .error (mismatch function parameter .number argument)

def color (function parameter : String) (argument : Option (Token α)) : Except Fault (Rgba α) :=
  match argument with
  | some (.color c) => .ok c
  | _ => .error (mismatch function parameter .color argument)

def string (function parameter : String) (argument : Option (Token α)) : Except Fault Text :=
  match argument with
  | some (.string t) => .ok t
  | _ => .error (mismatch function parameter .string argument)

def colorOr (function parameter : String) (default : Rgba α) (argument : Option (Token α)) :
    Except Fault (Rgba α) :=
  if argument.isNone then .ok default else color function parameter argument

/-- A percentage or a fraction, or the default where none is given. -/
def fractionOr [Scalar α] (function parameter : String) (default : α)
    (argument : Option (Token α)) : Except Fault α :=
  if argument.isNone then .ok default
  else (number function parameter argument).map Dimension.fraction

end StyleFunctions.Arguments
