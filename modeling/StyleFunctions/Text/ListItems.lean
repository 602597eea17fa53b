import StyleFunctions.Text.Blank

/-!
List literals: items between commas, or between blanks where there is no comma. Quotes and
parentheses protect what stands in them.
-/

namespace StyleFunctions.ListItems

/-- Where a scan stands: inside a quotation opened by a certain character, or inside parentheses. -/
structure State where
  quote : Option Char
  depth : Nat
  deriving DecidableEq, Repr

namespace State

def start : State := ⟨none, 0⟩

/-- Outside of quotations and parentheses, where separators count. -/
def atTop (s : State) : Bool := s.quote.isNone && s.depth == 0

/-- A quotation ends with the character that opened it. A closing parenthesis without an opening one
changes nothing. -/
def step (s : State) (c : Char) : State :=
  match s.quote with
  | some q => if c = q then { s with quote := none } else s
  | none =>
    if c = '"' ∨ c = '\'' then { s with quote := some c }
    else if c = '(' then { s with depth := s.depth + 1 }
    else if c = ')' then { s with depth := s.depth - 1 }
    else s

def run (s : State) (cs : List Char) : State := cs.foldl step s

end State

def isComma (c : Char) : Bool := c == ','

def consFirst (c : Char) : List (List Char) → List (List Char)
  | [] => [[c]]
  | segment :: rest => (c :: segment) :: rest

/-- The pieces between the separators at top level; there is one more of them than separators. -/
def segments (isSeparator : Char → Bool) : State → List Char → List (List Char)
  | _, [] => [[]]
  | s, c :: cs =>
    if s.atTop && isSeparator c then [] :: segments isSeparator s cs
    else consFirst c (segments isSeparator (s.step c) cs)

/-- The pieces without blanks around them, the empty ones left out. -/
def items (isSeparator : Char → Bool) (cs : List Char) : List (List Char) :=
  ((segments isSeparator .start cs).map Text.trim).filter fun item => !item.isEmpty

/-- Items between commas when these make more than one, otherwise items between blanks. -/
def ofChars (cs : List Char) : List (List Char) :=
  let byComma := items isComma cs
  if 1 < byComma.length then byComma else items Text.isBlank cs

def ofText (text : String) : List String := (ofChars text.toList).map String.ofList

end StyleFunctions.ListItems
