import StyleFunctions.Color.Luma

/-! The better readable of two reference colors. -/

namespace StyleFunctions.Rgba

variable {α : Type} [Elementary α]

/-- The light reference on a color darker than the threshold, otherwise the dark one. The references
are told apart by their luma, not by their order. -/
def contrast (c dark light : Rgba α) (threshold : α) : Rgba α :=
  let (dark, light) := if light.luma < dark.luma then (light, dark) else (dark, light)
  if c.luma < threshold then light else dark

/-- The luma at which the choice of a reference turns. -/
def contrastThreshold : α := 0.43

end StyleFunctions.Rgba
