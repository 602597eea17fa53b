import StyleFunctions.Color.Adjustment
import StyleFunctions.Color.Blend
import StyleFunctions.Color.Channel
import StyleFunctions.Color.Contrast
import StyleFunctions.Color.Mix
import StyleFunctions.Library.ColorMaker

/-! Functions on colors. -/

namespace StyleFunctions

namespace Library

section Scalar

variable {α : Type} [Scalar α]

def adjustmentDescription : Adjustment → String
  | .saturate => "Increase saturation by an amount"
  | .desaturate => "Decrease saturation by an amount"
  | .lighten => "Increase lightness by an amount"
  | .darken => "Decrease lightness by an amount"
  | .fadeIn => "Increase opacity by an amount"
  | .fadeOut => "Decrease opacity by an amount"
  | .fade => "Set opacity to an absolute amount"
  | .spin => "Rotate the hue by a number of degrees"

def amountParameter : Adjustment → Parameter
  | .spin => .required "angle" "Number" "Degrees, may be negative"
  | _ => .required "amount" "Number" "Fraction or percentage"

def adjustmentSignature (adjustment : Adjustment) : Signature where
  name := adjustment.name
  description := adjustmentDescription adjustment
  usage := "name(color, amount)"
  parameters := [.required "color" "Color" "Color to adjust", amountParameter adjustment]
  returns := "Color"
  examples := []
  category := "color/adjust"
  related := ["mix", "greyscale", "saturation", "lightness"]

/-- The amount of an adjustment: degrees for a turn of the hue, otherwise a fraction. -/
def adjustmentAmount (adjustment : Adjustment) (amount : Dimension α) : α :=
  if adjustment = .spin then amount.value else amount.fraction

def adjusted (adjustment : Adjustment) (arguments : List (Token α)) : Except Fault (Value α) := do
  let name := adjustment.name
  Arguments.expect name (.exactly 2) arguments
  let color ← Arguments.color name "color" arguments[0]?
  let amount ← Arguments.number name "amount" arguments[1]?
  return .color (adjustment.apply color (adjustmentAmount adjustment amount))

/-- Whether a call begins with a color. Otherwise it may be a filter of the style sheet that has the
name of a function. -/
def startsWithColor (arguments : List (Token α)) : Bool :=
  (arguments.head?.bind Token.color?).isSome

/-- `saturate` without a color is a filter and stays as written. -/
def adjust (adjustment : Adjustment) : Builtin α :=
  .standalone (adjustmentSignature adjustment) fun arguments =>
    if adjustment = .saturate ∧ startsWithColor arguments = false then return .unresolved
    else adjusted adjustment arguments

def greyscaleSignature : Signature where
  name := "greyscale"
  description := "Remove all saturation"
  usage := "greyscale(color)"
  parameters := [.required "color" "Color" "Color to desaturate"]
  returns := "Color"
  examples := ["greyscale(#ff0000) → #808080"]
  category := "color/adjust"
  related := ["mix", "greyscale", "saturation", "lightness"]

def greyscale : Builtin α :=
  .standalone greyscaleSignature fun arguments => do
    Arguments.expect "greyscale" (.exactly 1) arguments
    return .color (← Arguments.color "greyscale" "color" arguments[0]?).greyscale

def mixSignature : Signature where
  name := "mix"
  description := "Blend two colors by weight, accounting for opacity"
  usage := "mix(color1, color2, [weight])"
  parameters :=
    [.required "color1" "Color" "First color", .required "color2" "Color" "Second color",
     .optional "weight" "Number" "Share of color1" "50%"]
  returns := "Color"
  examples := ["mix(#ff0000, #0000ff) → #800080", "mix(#fff, #000, 25%) → #404040"]
  category := "color/mix"
  related := ["mix", "tint", "shade"]

def mix : Builtin α :=
  .standalone mixSignature fun arguments => do
    Arguments.expect "mix" (.between 2 3) arguments
    let c ← Arguments.color "mix" "color1" arguments[0]?
    let d ← Arguments.color "mix" "color2" arguments[1]?
    let weight ← Arguments.fractionOr "mix" "weight" 0.5 arguments[2]?
    return .color (c.mix d weight)

def mixWithSignature (name description : String) (sample : String) : Signature where
  name := name
  description := description
  usage := name ++ "(color, [amount])"
  parameters :=
    [.required "color" "Color" "Color to mix",
     .optional "amount" "Number" "Share of the reference color" "50%"]
  returns := "Color"
  examples := [sample]
  category := "color/mix"
  related := ["mix", "tint", "shade"]

/-- A mixture of a reference color with the argument. -/
def mixWith (reference : Rgba α) (signature : Signature) : Builtin α :=
  .standalone signature fun arguments => do
    Arguments.expect signature.name (.between 1 2) arguments
    let color ← Arguments.color signature.name "color" arguments[0]?
    let amount ← Arguments.fractionOr signature.name "amount" 0.5 arguments[1]?
    return .color (reference.mix color amount)

def tint : Builtin α :=
  mixWith .white (mixWithSignature "tint" "Mix a color with white" "tint(#000, 50%) → #808080")

def shade : Builtin α :=
  mixWith .black (mixWithSignature "shade" "Mix a color with black" "shade(#fff, 50%) → #808080")

/-- The color that a function of one color is called with. -/
def onlyColor (name : String) (arguments : List (Token α)) : Except Fault (Rgba α) := do
  Arguments.expect name (.exactly 1) arguments
  Arguments.color name "color" arguments[0]?

def inspected : Parameter := .required "color" "Color" "Color to inspect"

def argbSignature : Signature where
  name := "argb"
  description := "Hex form with the alpha channel first"
  usage := "argb(color)"
  parameters := [inspected]
  returns := "String"
  examples := ["argb(rgba(255, 0, 0, 0.5)) → #80ff0000"]
  category := "color/channel"
  related := ["alpha"]

def argb : Builtin α :=
  .standalone argbSignature fun arguments => do
    return .keyword (← onlyColor "argb" arguments).alphaHex

def channelDescription : Channel → String
  | .hue => "HSL hue in degrees"
  | .saturation => "HSL saturation as a percentage"
  | .lightness => "HSL lightness as a percentage"
  | .hsvHue => "HSV hue in degrees"
  | .hsvSaturation => "HSV saturation as a percentage"
  | .hsvValue => "HSV value as a percentage"
  | .red => "Red channel, 0-255"
  | .green => "Green channel, 0-255"
  | .blue => "Blue channel, 0-255"
  | .alpha => "Alpha channel, 0-1"

def channelSignature (channel : Channel) : Signature where
  name := channel.name
  description := channelDescription channel
  usage := "name(color)"
  parameters := [inspected]
  returns := "Number"
  examples := []
  category := "color/channel"
  related := ["rgba", "hsla", "hsva"]

def channel (channel : Channel) : Builtin α :=
  .standalone (channelSignature channel) fun arguments => do
    return .number (channel.read (← onlyColor channel.name arguments))

end Scalar

variable {α : Type} [Elementary α]

def lumaSignature : Signature where
  name := "luma"
  description := "Perceived luminance, weighted by opacity"
  usage := "luma(color)"
  parameters := [inspected]
  returns := "Number"
  examples := ["luma(#fff) → 100%", "luma(#000) → 0%"]
  category := "color/channel"
  related := ["contrast"]

def luma : Builtin α :=
  .standalone lumaSignature fun arguments => do
    let c ← onlyColor "luma" arguments
    return .number (.percent (Scalar.round (c.luma * c.alpha * 100)))

def contrastSignature : Signature where
  name := "contrast"
  description := "Choose the reference color with the best contrast"
  usage := "contrast(color, [dark], [light], [threshold])"
  parameters :=
    [.required "color" "Color" "Background color",
     .optional "dark" "Color" "Color used on light backgrounds" "#000",
     .optional "light" "Color" "Color used on dark backgrounds" "#fff",
     .optional "threshold" "Number" "Luma cut-off" "43%"]
  returns := "Color"
  examples := ["contrast(#777, #000, #fff, 0.5) → #ffffff", "contrast(#eee) → #000000"]
  category := "color/analyze"
  related := ["luma", "lightness"]

def contrasted (arguments : List (Token α)) : Except Fault (Value α) := do
  Arguments.expect "contrast" (.between 1 4) arguments
  let color ← Arguments.color "contrast" "color" arguments[0]?
  let dark ← Arguments.colorOr "contrast" "dark" .black arguments[1]?
  let light ← Arguments.colorOr "contrast" "light" .white arguments[2]?
  let threshold ← Arguments.fractionOr "contrast" "threshold" Rgba.contrastThreshold arguments[3]?
  return .color (color.contrast dark light threshold)

/-- `contrast` without a color is a filter and stays as written. -/
def contrast : Builtin α :=
  .standalone contrastSignature fun arguments =>
    if startsWithColor arguments then contrasted arguments else return .unresolved

def blendSignature (mode : BlendMode) : Signature where
  name := mode.name
  description := "Blend two colors with the mode of the same name"
  usage := "mode(backdrop, source)"
  parameters :=
    [.required "backdrop" "Color" "Bottom color", .required "source" "Color" "Top color"]
  returns := "Color"
  examples := []
  category := "color/blend"
  related := ["mix", "multiply"]

def blend (mode : BlendMode) : Builtin α :=
  .standalone (blendSignature mode) fun arguments => do
    Arguments.expect mode.name (.exactly 2) arguments
    let backdrop ← Arguments.color mode.name "backdrop" arguments[0]?
    let source ← Arguments.color mode.name "source" arguments[1]?
    return .color (mode.blend backdrop source)

/-- The functions on colors. -/
def colors : List (Builtin α) :=
  ColorMaker.all.map ColorMaker.builtin ++ Adjustment.all.map adjust ++
    [greyscale, mix, tint, shade, contrast, luma, argb] ++
    Channel.all.map channel ++ BlendMode.all.map blend

end Library

end StyleFunctions
