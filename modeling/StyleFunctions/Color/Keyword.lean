import StyleFunctions.Color.Rgba

/-!
Colors written as words or hexadecimal literals. They are read by a package of its own, which is a
parameter here; it is asked for literals and words only.
-/

namespace StyleFunctions.ColorKeyword

/-- A color as it is read. -/
structure Bytes where
  red : UInt8
  green : UInt8
  blue : UInt8
  alpha : UInt8
  deriving DecidableEq, Repr

/-- A package that reads colors. -/
abbrev Parser := String → Option Bytes

/-- A number sign and hexadecimal digits, as many as there are bytes behind the sign. -/
def isHexLiteral (text : String) : Bool :=
  match text.toList with
  | '#' :: digits =>
    [3, 4, 6, 8].contains (String.ofList digits).utf8ByteSize && digits.all Hex.isDigit
  | _ => false

/-- One or more ASCII letters. -/
def isWord (text : String) : Bool := !text.toList.isEmpty && text.toList.all Char.isAlpha

variable {α : Type} [Scalar α]

def ofBytes (red green blue alpha : Nat) : Rgba α :=
  ⟨Scalar.ofNat red, Scalar.ofNat green, Scalar.ofNat blue, Scalar.ofNat alpha / 255⟩

def Bytes.color (b : Bytes) : Rgba α :=
  ofBytes b.red.toNat b.green.toNat b.blue.toNat b.alpha.toNat

/-- The color that a text stands for. What is neither a literal nor a word is not even read. -/
def resolve (parser : Parser) (text : String) : Option (Rgba α) :=
  if isHexLiteral text || isWord text then (parser text).map Bytes.color else none

end StyleFunctions.ColorKeyword
