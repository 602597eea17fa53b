import StyleFunctions.Color.Hsl
import StyleFunctions.Color.Hsv

/-! The channels that can be read off a color. -/

namespace StyleFunctions

inductive Channel where
  | hue
  | saturation
  | lightness
  | hsvHue
  | hsvSaturation
  | hsvValue
  | red
  | green
  | blue
  | alpha
  deriving DecidableEq, Repr

namespace Channel

def all : List Channel :=
  [.hue, .saturation, .lightness, .hsvHue, .hsvSaturation, .hsvValue, .red, .green, .blue, .alpha]

def name : Channel → String
  | .hue => "hue"
  | .saturation => "saturation"
  | .lightness => "lightness"
  | .hsvHue => "hsvhue"
  | .hsvSaturation => "hsvsaturation"
  | .hsvValue => "hsvvalue"
  | .red => "red"
  | .green => "green"
  | .blue => "blue"
  | .alpha => "alpha"

/-- Hues and channels are rounded, fractions become whole percentages, the alpha is as it is. -/
def read {α : Type} [Scalar α] (channel : Channel) (c : Rgba α) : Dimension α :=
  match channel with
  | .hue => .plain (Scalar.round (Hsl.ofRgba c).hue)
  | .saturation => .percentOfFraction (Hsl.ofRgba c).saturation
  | .lightness => .percentOfFraction (Hsl.ofRgba c).lightness
  | .hsvHue => .plain (Scalar.round (Hsv.ofRgba c).hue)
  | .hsvSaturation => .percentOfFraction (Hsv.ofRgba c).saturation
  | .hsvValue => .percentOfFraction (Hsv.ofRgba c).value
  | .red => .plain (Scalar.round c.red)
  | .green => .plain (Scalar.round c.green)
  | .blue => .plain (Scalar.round c.blue)
  | .alpha => .plain c.alpha

end Channel

end StyleFunctions
