import StyleFunctions.Color.Rgba

/-! The hue of a color, which the two cylindrical views of it share. -/

namespace StyleFunctions

/-- The channels of a color as fractions, with the largest and the smallest of them. -/
structure ChannelSpan (α : Type) where
  red : α
  green : α
  blue : α
  largest : α
  smallest : α

namespace ChannelSpan

variable {α : Type} [Scalar α]

def ofRgba (c : Rgba α) : ChannelSpan α :=
  let r := c.red / 255
  let g := c.green / 255
  let b := c.blue / 255
  ⟨r, g, b, Scalar.larger (Scalar.larger r g) b, Scalar.smaller (Scalar.smaller r g) b⟩

/-- The distance between the extreme channels: zero for a grey. -/
def chroma (e : ChannelSpan α) : α := e.largest - e.smallest

/-- The place on the color circle in sixths of a turn, for a color that is no grey: red is at zero,
green at two and blue at four. -/
def sector (e : ChannelSpan α) : α :=
  if e.largest == e.red then
    (e.green - e.blue) / e.chroma + (if e.green < e.blue then 6 else 0)
  else if e.largest == e.green then (e.blue - e.red) / e.chroma + 2
  else (e.red - e.green) / e.chroma + 4

/-- The hue in degrees; a grey has the hue of red. -/
def hue (e : ChannelSpan α) : α := if e.chroma == 0 then 0 else e.sector * 60

end ChannelSpan

end StyleFunctions
