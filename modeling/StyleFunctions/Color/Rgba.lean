import StyleFunctions.Dimension.Basic
import StyleFunctions.Text.Hex

/-! Colors by their red, green and blue channels and their opacity. -/

namespace StyleFunctions

/-- Channels run from `0` to `255` and the alpha from `0` to `1`; neither is rounded before it is
read or written. -/
structure Rgba (α : Type) where
  red : α
  green : α
  blue : α
  alpha : α
  deriving DecidableEq, Repr

namespace Rgba

variable {α : Type} [Scalar α]

def opaqueColor (red green blue : α) : Rgba α := ⟨red, green, blue, 1⟩

def white : Rgba α := opaqueColor 255 255 255

def black : Rgba α := opaqueColor 0 0 0

/-- A channel as a byte: rounded, then restricted to the range of a byte. -/
def byte (channel : α) : UInt8 := .ofNat (Scalar.toNat (Scalar.clamp 0 255 (Scalar.round channel)))

/-- The alpha as a byte. -/
def alphaByte (c : Rgba α) : UInt8 :=
  .ofNat (Scalar.toNat (Scalar.round (Scalar.clampUnit c.alpha * 255)))

def channelDigits (c : Rgba α) : List Char :=
  Hex.byte (byte c.red) ++ Hex.byte (byte c.green) ++ Hex.byte (byte c.blue)

/-- `#rrggbb`, without the alpha. -/
def hex (c : Rgba α) : String := .ofList ('#' :: c.channelDigits)

/-- `#aarrggbb`, the alpha first. -/
def alphaHex (c : Rgba α) : String := .ofList ('#' :: (Hex.byte c.alphaByte ++ c.channelDigits))

/-- The written form: hexadecimal for an opaque color, `rgba(r, g, b, a)` for any other. -/
def text [Numeral α] (c : Rgba α) : String :=
  if 1 ≤ c.alpha then c.hex
  else
    "rgba(" ++ Nat.repr (byte c.red).toNat ++ ", " ++ Nat.repr (byte c.green).toNat ++ ", " ++
      Nat.repr (byte c.blue).toNat ++ ", " ++ numberText c.alpha ++ ")"

end Rgba

end StyleFunctions
