import StyleFunctions.Arguments
import StyleFunctions.Color.Hsl
import StyleFunctions.Color.Hsv

/-! Functions that make a color of the values of its channels. -/

namespace StyleFunctions

/-- The ways to write a color by three channels. -/
inductive ColorModel where
  | rgb
  | hsl
  | hsv
  deriving DecidableEq, Repr

/-- A function that makes a color, with or without a parameter for the alpha. -/
structure ColorMaker where
  model : ColorModel
  takesAlpha : Bool
  deriving DecidableEq, Repr

namespace ColorMaker

def all : List ColorMaker :=
  [⟨.rgb, false⟩, ⟨.rgb, true⟩, ⟨.hsl, false⟩, ⟨.hsl, true⟩, ⟨.hsv, false⟩, ⟨.hsv, true⟩]

def name : ColorMaker → String
  | ⟨.rgb, false⟩ => "rgb"
  | ⟨.rgb, true⟩ => "rgba"
  | ⟨.hsl, false⟩ => "hsl"
  | ⟨.hsl, true⟩ => "hsla"
  | ⟨.hsv, false⟩ => "hsv"
  | ⟨.hsv, true⟩ => "hsva"

def arity (maker : ColorMaker) : Arity := if maker.takesAlpha then .between 3 4 else .exactly 3

def description : ColorMaker → String
  | ⟨.rgb, false⟩ => "Color from red, green and blue channels"
  | ⟨.rgb, true⟩ => "Color from red, green, blue and alpha channels"
  | ⟨.hsl, false⟩ => "Color from hue, saturation and lightness"
  | ⟨.hsl, true⟩ => "Color from hue, saturation, lightness and alpha"
  | ⟨.hsv, false⟩ => "Color from hue, saturation and value"
  | ⟨.hsv, true⟩ => "Color from hue, saturation, value and alpha"

def usage : ColorMaker → String
  | ⟨.rgb, false⟩ => "rgb(r, g, b)"
  | ⟨.rgb, true⟩ => "rgba(r, g, b, [a])"
  | ⟨.hsl, false⟩ => "hsl(h, s, l)"
  | ⟨.hsl, true⟩ => "hsla(h, s, l, [a])"
  | ⟨.hsv, false⟩ => "hsv(h, s, v)"
  | ⟨.hsv, true⟩ => "hsva(h, s, v, [a])"

def examples : ColorMaker → List String
  | ⟨.rgb, false⟩ => ["rgb(255, 204, 0) → #ffcc00", "rgb(100%, 0, 0) → #ff0000"]
  | ⟨.rgb, true⟩ => ["rgba(255, 0, 0, 0.5)"]
  | ⟨.hsl, false⟩ => ["hsl(120, 100%, 50%) → #00ff00"]
  | ⟨.hsl, true⟩ => ["hsla(120, 100%, 50%, 0.5)"]
  | ⟨.hsv, false⟩ => ["hsv(240, 1, 1) → #0000ff"]
  | ⟨.hsv, true⟩ => ["hsva(240, 1, 1, 50%)"]

def channels : ColorModel → List Parameter
  | .rgb =>
    [.required "red" "Number" "0-255 or percentage",
     .required "green" "Number" "0-255 or percentage",
     .required "blue" "Number" "0-255 or percentage"]
  | .hsl =>
    [.required "hue" "Number" "Degrees",
     .required "saturation" "Number" "0-1 or percentage",
     .required "lightness" "Number" "0-1 or percentage"]
  | .hsv =>
    [.required "hue" "Number" "Degrees",
     .required "saturation" "Number" "0-1 or percentage",
     .required "value" "Number" "0-1 or percentage"]

def parameters (maker : ColorMaker) : List Parameter :=
  channels maker.model ++
    if maker.takesAlpha then [.optional "alpha" "Number" "0-1 or percentage" "1"] else []

def signature (maker : ColorMaker) : Signature where
  name := maker.name
  description := maker.description
  usage := maker.usage
  parameters := maker.parameters
  returns := "Color"
  examples := maker.examples
  category := "color/construct"
  related := ["color", "mix", "spin"]

variable {α : Type} [Scalar α]

/-- Makes a color of the values of its channels. Channels of red, green and blue run to 255, all
others but the hue are fractions; only with hue, saturation and lightness are they restricted to
their range. -/
def build (model : ColorModel) (x y z : Dimension α) (alpha : α) : Rgba α :=
  match model with
  | .rgb => ⟨x.scaled 255, y.scaled 255, z.scaled 255, alpha⟩
  | .hsl =>
    Hsl.toRgba
      ⟨x.fraction, Scalar.clampUnit y.fraction, Scalar.clampUnit z.fraction, Scalar.clampUnit alpha⟩
  | .hsv => Hsv.toRgba ⟨x.fraction, y.fraction, z.fraction, alpha⟩

/-- The name of a channel parameter, by its position. -/
def channelName (model : ColorModel) (index : Nat) : String :=
  (((channels model)[index]?).map Parameter.name).getD ""

/-- The alpha is looked at before the channels. -/
def make (maker : ColorMaker) (arguments : List (Token α)) : Except Fault (Rgba α) := do
  Arguments.expect maker.name maker.arity arguments
  let alpha ← Arguments.fractionOr maker.name "alpha" 1 arguments[3]?
  let channel := fun index =>
    Arguments.number maker.name (channelName maker.model index) arguments[index]?
  return build maker.model (← channel 0) (← channel 1) (← channel 2) alpha

def builtin (maker : ColorMaker) : Builtin α :=
  .standalone maker.signature fun arguments => Value.color <$> maker.make arguments

end ColorMaker

end StyleFunctions
