import StyleFunctions.Color.Keyword
import StyleFunctions.Color.Named

/-! A parser to run programs with. -/

namespace StyleFunctions.ColorKeyword

def ofDigits? : List Nat → Option Bytes
  | [r, g, b] => some ⟨.ofNat (17 * r), .ofNat (17 * g), .ofNat (17 * b), 255⟩
  | [r, g, b, a] => some ⟨.ofNat (17 * r), .ofNat (17 * g), .ofNat (17 * b), .ofNat (17 * a)⟩
  | [r, r', g, g', b, b'] =>
    some ⟨.ofNat (16 * r + r'), .ofNat (16 * g + g'), .ofNat (16 * b + b'), 255⟩
  | [r, r', g, g', b, b', a, a'] =>
    some ⟨.ofNat (16 * r + r'), .ofNat (16 * g + g'), .ofNat (16 * b + b'), .ofNat (16 * a + a')⟩
  | _ => none

/-- A color by its hexadecimal digits: one or two for each channel, and as many for the alpha, which
is full where it is left out. -/
def ofHex? (cs : List Char) : Option Bytes := (cs.mapM Hex.value?).bind ofDigits?

/-- A color by its name in lower case. -/
def ofName? (name : String) : Option Bytes :=
  if name = "transparent" then some ⟨0, 0, 0, 0⟩
  else (named.lookup name).map fun code =>
    ⟨.ofNat (code / 65536), .ofNat (code / 256 % 256), .ofNat (code % 256), 255⟩

/-- Digits behind a number sign; without it, digits or a name in letters of either case. -/
def ownParser : Parser := fun text =>
  match text.toList with
  | '#' :: digits => ofHex? digits
  | cs => (ofHex? cs).or (ofName? (.ofList (cs.map Char.toLower)))

end StyleFunctions.ColorKeyword
