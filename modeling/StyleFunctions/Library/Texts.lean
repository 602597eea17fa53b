import StyleFunctions.Arguments
import StyleFunctions.Text.Template

/-!
Functions on strings. The engine that finds placeholders and the encoder are parameters.
-/

namespace StyleFunctions.Library

open Percent (Encoder)
open Search (Engine)

variable {α : Type} [Scalar α] [Numeral α]

def formatSignature : Signature where
  name := "%"
  description := "Format a string; uppercase placeholders URL-encode their value"
  usage := "%(template, args...)"
  parameters :=
    [.required "template" "String" "Text with %s, %d or %a placeholders",
     .optional "args..." "Any" "Substitutions, in order" "none"]
  returns := "String"
  examples := ["%(\"%s-%d\", x, 5) → \"x-5\"", "%(\"q=%S\", \"a b\") → \"q=a%20b\""]
  category := "text"
  related := ["e", "escape"]

/-- The values are put into the template in their written form. -/
def format (engine : Engine) (encoder : Encoder) : Builtin α :=
  .standalone formatSignature fun arguments => do
    Arguments.expect "%" (.atLeast 1) arguments
    let template ← Arguments.string "%" "template" arguments[0]?
    let values := (arguments.drop 1).map Token.text
    let text ← Template.format engine encoder template.content values
    return .string (template.requote text)

def inputText : Parameter := .required "string" "String" "Input text"

def escapeSignature : Signature where
  name := "escape"
  description := "URL-encode a string, including = : # ; ( )"
  usage := "escape(string)"
  parameters := [inputText]
  returns := "String"
  examples := ["escape(\"a=1\") → a%3D1"]
  category := "text"
  related := ["%", "e"]

def escape (encoder : Encoder) : Builtin α :=
  .standalone escapeSignature fun arguments => do
    Arguments.expect "escape" (.exactly 1) arguments
    let text ← Arguments.string "escape" "string" arguments[0]?
    return .keyword (encoder Percent.escapeMarks text.content)

def unquoteSignature : Signature where
  name := "e"
  description := "Emit the value as an unquoted string"
  usage := "e(string)"
  parameters := [inputText]
  returns := "String"
  examples := ["e(\"ms:foo\") → ms:foo"]
  category := "text"
  related := ["%", "escape"]

/-- Takes any value, not only a string. -/
def unquote : Builtin α :=
  .standalone unquoteSignature fun arguments => do
    return .keyword (← Arguments.only "e" arguments).text

/-- The functions on strings, with an engine and an encoder to run them. -/
def texts : List (Builtin α) :=
  [format Template.ownEngine Percent.encodeText, escape Percent.encodeText, unquote]

end StyleFunctions.Library
