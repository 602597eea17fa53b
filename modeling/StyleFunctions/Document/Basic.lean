/-! Documents: trees of named and listed parts, as they are exchanged with other programs. -/

namespace StyleFunctions

/-- A tree over numbers of type `α`. Nothing keeps an object from having two members of one name. -/
inductive Document (α : Type) where
  | null
  | bool (truth : Bool)
  | number (value : α)
  | text (content : String)
  | list (items : List (Document α))
  | object (members : List (String × Document α))
  deriving Repr

namespace Document

variable {α : Type}

def texts (contents : List String) : Document α := .list (contents.map .text)

/-- The first member of a name. -/
def member? (name : String) (members : List (String × Document α)) : Option (Document α) :=
  members.lookup name

/-- All members of a name. -/
def occurrences (name : String) (members : List (String × Document α)) : List (Document α) :=
  (members.filter fun entry => entry.1 == name).map Prod.snd

/-- None of the names has two members. -/
def distinct (known : List String) (members : List (String × Document α)) : Bool :=
  known.all fun name => decide ((occurrences name members).length ≤ 1)

def number? : Document α → Option α
  | .number x => some x
  | _ => none

def bool? : Document α → Option Bool
  | .bool b => some b
  | _ => none

def text? : Document α → Option String
  | .text s => some s
  | _ => none

def textList? : Document α → Option (List String)
  | .list items => items.mapM text?
  | _ => none

end Document

end StyleFunctions
