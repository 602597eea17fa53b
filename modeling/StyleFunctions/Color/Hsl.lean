import StyleFunctions.Color.Hue

/-! Colors by hue, saturation and lightness. -/

namespace StyleFunctions

/-- The hue is in degrees, the other channels are fractions. -/
structure Hsl (α : Type) where
  hue : α
  saturation : α
  lightness : α
  alpha : α
  deriving DecidableEq, Repr

namespace Hsl

variable {α : Type} [Scalar α]

/-- The saturation is the chroma as a share of the largest that the lightness allows. -/
def ofRgba (c : Rgba α) : Hsl α :=
  let e := ChannelSpan.ofRgba c
  let lightness := (e.largest + e.smallest) / 2
  let saturation :=
    if e.chroma == 0 then 0
    else if 1 / 2 < lightness then e.chroma / (2 - e.largest - e.smallest)
    else e.chroma / (e.largest + e.smallest)
  ⟨e.hue, saturation, lightness, c.alpha⟩

/-- One channel as a function of the place on the color circle, in turns: it rises from `low` to
`high` in the first sixth, stays there until the half, falls until two thirds and stays low. -/
def ramp (low high x : α) : α :=
  let x := if x < 0 then x + 1 else if 1 < x then x - 1 else x
  if x * 6 < 1 then low + (high - low) * x * 6
  else if x * 2 < 1 then high
  else if x * 3 < 2 then low + (high - low) * (2 / 3 - x) * 6
  else low

/-- Back to channels. Saturation, lightness and alpha are first restricted to their range; red and
blue run one third of a turn ahead of green and behind it. -/
def toRgba (c : Hsl α) : Rgba α :=
  let turn := Scalar.cyclic c.hue 360 / 360
  let s := Scalar.clampUnit c.saturation
  let l := Scalar.clampUnit c.lightness
  let high := if l ≤ 1 / 2 then l * (s + 1) else l + s - l * s
  let low := l * 2 - high
  ⟨ramp low high (turn + 1 / 3) * 255, ramp low high turn * 255, ramp low high (turn - 1 / 3) * 255,
    Scalar.clampUnit c.alpha⟩

end Hsl

end StyleFunctions
