import Mathlib.Analysis.SpecialFunctions.Pow.Real
import Mathlib.Analysis.SpecialFunctions.Trigonometric.Arctan
import StyleFunctions.Proofs.Scalar.Exact

/-! The real numbers as the numbers of a style sheet, with their own roots, powers and angles. -/

namespace StyleFunctions.Exact

noncomputable scoped instance elementary : Elementary ℝ where
  toScalar := scalar
  pi := Real.pi
  sqrt := Real.sqrt
  pow := fun x y => x ^ y
  sin := Real.sin
  cos := Real.cos
  tan := Real.tan
  asin := Real.arcsin
  acos := Real.arccos
  atan := Real.arctan

end StyleFunctions.Exact
