/-! What can be wrong with a call. A `Fault` is the cause, a `Report` what is told about it. -/

namespace StyleFunctions

inductive Severity where
  | error
  /-- The expression cannot be evaluated at all. -/
  | fatal
  deriving DecidableEq, Repr

def Severity.name : Severity → String
  | .error => "error"
  | .fatal => "fatal"

/-- A report to the author of a style sheet. -/
structure Report where
  /-- The kind of the fault, for programs. -/
  code : String
  message : String
  suggestion : Option String
  notes : List String
  severity : Severity
  deriving DecidableEq, Repr

namespace Report

def plain (code message : String) : Report := ⟨code, message, none, [], .error⟩

def suggesting (r : Report) (suggestion : String) : Report :=
  { r with suggestion := some suggestion }

def noting (r : Report) (note : String) : Report := { r with notes := r.notes ++ [note] }

def rated (r : Report) (severity : Severity) : Report := { r with severity }

def text (r : Report) : String :=
  "[" ++ r.code ++ "] " ++ r.message ++
    match r.suggestion with
    | some suggestion => " (suggestion: " ++ suggestion ++ ")"
    | none => ""

end Report

/-- How many arguments a function takes. -/
inductive Arity where
  | exactly (count : Nat)
  | between (least most : Nat)
  | atLeast (count : Nat)
  deriving DecidableEq, Repr

namespace Arity

def allows : Arity → Nat → Bool
  | .exactly n, k => k == n
  | .between lo hi, k => decide (lo ≤ k) && decide (k ≤ hi)
  | .atLeast n, k => decide (n ≤ k)

def text : Arity → String
  | .exactly n => Nat.repr n
  | .between lo hi => Nat.repr lo ++ " to " ++ Nat.repr hi
  | .atLeast n => "at least " ++ Nat.repr n

end Arity

/-- The causes of a failed call. -/
inductive Fault where
  | typeMismatch (expected found : String)
  | argumentCount (function : String) (arity : Arity) (count : Nat)
  | noArguments
  | argumentType (function argument expected found : String)
  | unknownColor
  | notString
  /-- The number of decimal places is no integer from 0 to 100. -/
  | decimalPlaces (places : String)
  | outsideDomain (details : String)
  | notImplemented (function : String)
  | internal (details : String)
  deriving DecidableEq, Repr

namespace Fault

/-- The wording of every fault. -/
def report : Fault → Report
  | .typeMismatch expected found =>
    .plain "TYPE_ERROR" ("Expected " ++ expected ++ ", got " ++ found)
  | .argumentCount function arity count =>
    (Report.plain "ARG_COUNT"
      (function ++ "() expects " ++ arity.text ++ " arguments, got " ++ Nat.repr count)).suggesting
      ("Use help('" ++ function ++ "') for usage")
  | .noArguments => .plain "ARG_COUNT" "one or more arguments required"
  | .argumentType function argument expected found =>
    .plain "ARG_TYPE"
      (function ++ "() argument '" ++ argument ++ "': expected " ++ expected ++ ", got " ++ found)
  | .unknownColor =>
    .plain "ARG_TYPE" "argument must be a color keyword or 3/6 digit hex e.g. #FFF"
  | .notString => .plain "ARG_TYPE" "argument must be a string"
  | .decimalPlaces places =>
    .plain "DOMAIN_ERROR"
      ("Domain error: round(): digits must be an integer between 0 and 100, got " ++ places)
  | .outsideDomain details => .plain "DOMAIN_ERROR" ("Domain error: " ++ details)
  | .notImplemented function =>
    ((Report.plain "NOT_IMPLEMENTED" "Not implemented").noting
      (function ++ "() is recognized but has no implementation")).rated .fatal
  | .internal details =>
    ((Report.plain "INTERNAL" ("Internal error: " ++ details)).suggesting
      "This is a bug, please report it").rated .fatal

end Fault

end StyleFunctions
