import StyleFunctions.Color.Rgba

/-! Relative luminance. -/

namespace StyleFunctions

variable {α : Type} [Elementary α]

/-- A channel without the gamma of the sRGB space: linear near black, a power above. -/
def linearChannel (channel : α) : α :=
  let v := channel / 255
  if v ≤ 0.03928 then v / 12.92 else Elementary.pow ((v + 0.055) / 1.055) 2.4

/-- Brightness from `0` to `1`, whatever the alpha. -/
def Rgba.luma (c : Rgba α) : α :=
  0.2126 * linearChannel c.red + 0.7152 * linearChannel c.green + 0.0722 * linearChannel c.blue

end StyleFunctions
