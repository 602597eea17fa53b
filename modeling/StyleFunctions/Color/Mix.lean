import StyleFunctions.Color.Rgba

/-! Mixtures of two colors. -/

namespace StyleFunctions.Rgba

variable {α : Type} [Scalar α]

/-- The share of the first color in the channels of a mixture: the weight, moved toward the less
transparent of the two. The weight and the difference of the alphas, both from `-1` to `1`, add up
as velocities do; opposite extremes leave the weight alone. -/
def mixShare (weight alphaLead : α) : α :=
  let w := weight * 2 - 1
  let biased := if w * alphaLead == -1 then w else (w + alphaLead) / (1 + w * alphaLead)
  (biased + 1) / 2

/-- A mixture with the given share of the first color, from `0` to `1`. -/
def mix (c d : Rgba α) (weight : α) : Rgba α :=
  let share := mixShare weight (c.alpha - d.alpha)
  let rest := 1 - share
  ⟨c.red * share + d.red * rest, c.green * share + d.green * rest, c.blue * share + d.blue * rest,
    c.alpha * weight + d.alpha * (1 - weight)⟩

end StyleFunctions.Rgba
