import StyleFunctions.Color.Hsl

/-! Adjustments of one channel of a color. -/

namespace StyleFunctions

inductive Adjustment where
  | saturate
  | desaturate
  | lighten
  | darken
  | fadeIn
  | fadeOut
  | fade
  | spin
  deriving DecidableEq, Repr

namespace Adjustment

def all : List Adjustment :=
  [.saturate, .desaturate, .lighten, .darken, .fadeIn, .fadeOut, .fade, .spin]

def name : Adjustment → String
  | .saturate => "saturate"
  | .desaturate => "desaturate"
  | .lighten => "lighten"
  | .darken => "darken"
  | .fadeIn => "fadein"
  | .fadeOut => "fadeout"
  | .fade => "fade"
  | .spin => "spin"

variable {α : Type} [Scalar α]

/-- Changes one channel and restricts it to its range. The amount is a fraction, for `spin` an angle
in degrees; `fade` sets the alpha, all others move their channel. -/
def adjust (adjustment : Adjustment) (c : Hsl α) (amount : α) : Hsl α :=
  match adjustment with
  | .saturate => { c with saturation := Scalar.clampUnit (c.saturation + amount) }
  | .desaturate => { c with saturation := Scalar.clampUnit (c.saturation - amount) }
  | .lighten => { c with lightness := Scalar.clampUnit (c.lightness + amount) }
  | .darken => { c with lightness := Scalar.clampUnit (c.lightness - amount) }
  | .fadeIn => { c with alpha := Scalar.clampUnit (c.alpha + amount) }
  | .fadeOut => { c with alpha := Scalar.clampUnit (c.alpha - amount) }
  | .fade => { c with alpha := Scalar.clampUnit amount }
  | .spin => { c with hue := Scalar.cyclic (c.hue + amount) 360 }

/-- The adjusted color. -/
def apply (adjustment : Adjustment) (c : Rgba α) (amount : α) : Rgba α :=
  (adjustment.adjust (Hsl.ofRgba c) amount).toRgba

end Adjustment

/-- A color without its saturation. -/
def Rgba.greyscale {α : Type} [Scalar α] (c : Rgba α) : Rgba α := Adjustment.desaturate.apply c 1

end StyleFunctions
