import StyleFunctions.Color.Parser
import StyleFunctions.Library.Colors
import StyleFunctions.Library.Extreme
import StyleFunctions.Library.Kinds
import StyleFunctions.Library.Lists
import StyleFunctions.Library.Numbers
import StyleFunctions.Library.Texts
import StyleFunctions.Library.Units
import StyleFunctions.Registry.Basic
import StyleFunctions.Text.ListItems

/-! The functions of a style sheet, all together. -/

namespace StyleFunctions

namespace Library

def dataUriSignature : Signature where
  name := "data-uri"
  description := "Inline a file as a data URI (not available)"
  usage := "data-uri([mimetype], path)"
  parameters :=
    [.optional "mimetype" "String" "MIME type" "detected",
     .required "path" "String" "File to embed"]
  returns := "String"
  examples := []
  category := "unsupported"
  related := []

/-- A known name without a function behind it: it would have to read files. -/
def dataUri {α : Type} : Builtin α :=
  .standalone dataUriSignature fun _ => .error (.notImplemented "data-uri")

/-- The functions on values of every kind. -/
def values {α : Type} [Elementary α] [Numeral α] : List (Builtin α) :=
  numbers ++ extremes ++ texts ++ lists ++ kinds ++ [dataUri]

end Library

/-- A registry of all functions. -/
def standardRegistry {α : Type} [Elementary α] [Numeral α] : Registry α :=
  ((Registry.empty.insertAll Library.units).insertAll Library.colors).insertAll Library.values

namespace Context

variable {α : Type} [Scalar α]

/-- No word is a color; list literals are split as usual. -/
def colorless : Context α := ⟨fun _ => none, ListItems.ofText⟩

/-- Colors by name and by hexadecimal digits, as a parser reads them, and list literals. -/
def reading (parser : ColorKeyword.Parser) : Context α :=
  ⟨ColorKeyword.resolve parser, ListItems.ofText⟩

def standard : Context α := reading ColorKeyword.ownParser

end Context

/-- Calls one of the standard functions by name. -/
def evaluate {α : Type} [Elementary α] [Numeral α] (context : Context α) (name : String)
    (arguments : List (Token α)) : Value α :=
  standardRegistry.call context name arguments

end StyleFunctions
