import StyleFunctions.Text.Hex

/-!
Percent-encoding: the bytes outside a kept set are written as `%` and two digits. It comes from a
package of its own, so it is a parameter of whatever encodes.
-/

namespace StyleFunctions.Percent

/-- Encodes a text. ASCII letters and digits are kept, and the marks that are given. -/
abbrev Encoder := List Char → String → String

/-- The punctuation that stays in a component of an address. -/
def componentMarks : List Char := ['-', '_', '.', '!', '~', '*', '\'', '(', ')']

/-- The punctuation that stays when a whole text is escaped. -/
def escapeMarks : List Char :=
  [',', '/', '?', '@', '&', '+', '$', '-', '_', '.', '!', '~', '*', '\'']

def isKept (marks : List Char) (c : Char) : Bool := c.isAlphanum || marks.contains c

def encodeByte (marks : List Char) (b : UInt8) : List Char :=
  if isKept marks (Char.ofUInt8 b) then [Char.ofUInt8 b] else '%' :: Hex.upperByte b

/-- An encoder to run programs with: byte by byte. -/
def encodeText : Encoder := fun marks text =>
  .ofList (text.toUTF8.data.toList.flatMap (encodeByte marks))

end StyleFunctions.Percent
