import StyleFunctions.Color.Hue

/-! Colors by hue, saturation and value. -/

namespace StyleFunctions

/-- The hue is in degrees, the other channels are fractions. -/
structure Hsv (α : Type) where
  hue : α
  saturation : α
  value : α
  alpha : α
  deriving DecidableEq, Repr

namespace Hsv

variable {α : Type} [Scalar α]

/-- The value is the largest channel and the saturation the chroma as a share of it. -/
def ofRgba (c : Rgba α) : Hsv α :=
  let e := ChannelSpan.ofRgba c
  let saturation := if e.largest == 0 then 0 else e.chroma / e.largest
  ⟨e.hue, saturation, e.largest, c.alpha⟩

/-- Red, green and blue in each sixth of the circle, from the four levels a channel can have: the
value itself, the lowest level, and the levels that fall and rise within the sixth. -/
def arrange (sector : Nat) (value low falling rising : α) : α × α × α :=
  match sector with
  | 0 => (value, rising, low)
  | 1 => (falling, value, low)
  | 2 => (low, value, rising)
  | 3 => (low, falling, value)
  | 4 => (rising, low, value)
  | _ => (value, low, falling)

/-- Back to channels, none of which is restricted to its range. -/
def toRgba (c : Hsv α) : Rgba α :=
  let sixths := Scalar.cyclic c.hue 360 / 60
  let sector := Scalar.floor sixths
  let part := sixths - sector
  let s := c.saturation
  let v := c.value
  let (r, g, b) :=
    arrange (Scalar.toNat sector % 6) v (v * (1 - s)) (v * (1 - part * s))
      (v * (1 - (1 - part) * s))
  ⟨r * 255, g * 255, b * 255, c.alpha⟩

end Hsv

end StyleFunctions
