import StyleFunctions.Fault
import StyleFunctions.Text.Percent
import StyleFunctions.Text.Search

/-!
Templates: the placeholders `%s`, `%d` and `%a`, in either case, stand for values in order, then every
`%%` becomes `%`.
-/

namespace StyleFunctions.Template

open Percent (Encoder)
open Search (Searcher Engine)

/-- The expression for a placeholder. -/
def pattern : String := "(?i)%[sda]"

def endsInCapital (placeholder : List Char) : Bool := placeholder.getLast?.any Char.isUpper

/-- What takes the place of a placeholder: the next value, encoded where the placeholder is a capital
letter. When no value is left, the placeholder stays. -/
def substitute (encoder : Encoder) (placeholder : List Char) : StateM (List String) (List Char)
  | [] => (placeholder, [])
  | value :: values =>
    if endsInCapital placeholder then ((encoder Percent.componentMarks value).toList, values)
    else (value.toList, values)

/-- The template with values in the place of its placeholders. -/
def fill (searcher : Searcher) (encoder : Encoder) (template : List Char) (values : List String) :
    List Char :=
  ((searcher.replaceAll (substitute encoder) template).run values).1

/-- Halves the runs of percent signs. -/
def collapse : List Char → List Char
  | '%' :: '%' :: cs => '%' :: collapse cs
  | c :: cs => c :: collapse cs
  | [] => []

def format (engine : Engine) (encoder : Encoder) (template : String) (values : List String) :
    Except Fault String :=
  match engine.compile pattern with
  | .ok searcher => .ok (.ofList (collapse (fill searcher encoder template.toList values)))
  | .error reason => .error (.internal ("placeholder pattern: " ++ reason))

/-! ### An engine to run programs with -/

/-- Simple case folding of the ASCII letters and of the long s. -/
def foldLetter (c : Char) : Char := if c == '\u017f' then 's' else c.toLower

def isPlaceholder (c : Char) : Bool := ['s', 'd', 'a'].contains (foldLetter c)

/-- Replaces the placeholders from left to right. -/
def replacePlaceholders {σ : Type} (replacer : List Char → StateM σ (List Char)) :
    List Char → StateM σ (List Char)
  | '%' :: c :: cs =>
    if isPlaceholder c then do
      let replaced ← replacer ['%', c]
      return replaced ++ (← replacePlaceholders replacer cs)
    else return '%' :: (← replacePlaceholders replacer (c :: cs))
  | c :: cs => return c :: (← replacePlaceholders replacer cs)
  | [] => return []

/-- It knows the expression for a placeholder and no other one. -/
def ownEngine : Engine where
  fold := foldLetter
  compile expression :=
    if expression = pattern then .ok ⟨replacePlaceholders⟩ else .error "unknown expression"

def formatText (template : String) (values : List String) : String :=
  .ofList (collapse (fill ⟨replacePlaceholders⟩ Percent.encodeText template.toList values))

theorem format_ownEngine (template : String) (values : List String) :
    format ownEngine Percent.encodeText template values = .ok (formatText template values) := rfl

end StyleFunctions.Template
