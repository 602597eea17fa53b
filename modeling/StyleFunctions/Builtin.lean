import StyleFunctions.Value

/-! Functions with their signatures, and what they may consult. -/

namespace StyleFunctions

/-- What the host of the functions knows: which words are colors, and how a list literal is split.
-/
structure Context (α : Type) where
  resolveColor : String → Option (Rgba α)
  splitList : String → List String

/-- A parameter of a function. One that may be left out says what is taken instead. -/
structure Parameter where
  name : String
  type : String
  description : String
  fallback : Option String
  deriving DecidableEq, Repr

namespace Parameter

def required (name type description : String) : Parameter := ⟨name, type, description, none⟩

def optional (name type description fallback : String) : Parameter :=
  ⟨name, type, description, some fallback⟩

def isOptional (p : Parameter) : Bool := p.fallback.isSome

end Parameter

/-- What is told about a function in help pages and listings. -/
structure Signature where
  name : String
  description : String
  usage : String
  parameters : List Parameter
  returns : String
  examples : List String
  category : String
  related : List String
  deriving DecidableEq, Repr

/-- A function that can be called by name. -/
structure Builtin (α : Type) where
  signature : Signature
  call : Context α → List (Token α) → Value α

namespace Builtin

variable {α : Type}

def name (f : Builtin α) : String := f.signature.name

/-- A function that consults nothing and may find a fault. -/
def standalone (signature : Signature) (compute : List (Token α) → Except Fault (Value α)) :
    Builtin α :=
  ⟨signature, fun _ arguments => .ofExcept (compute arguments)⟩

end Builtin

end StyleFunctions
