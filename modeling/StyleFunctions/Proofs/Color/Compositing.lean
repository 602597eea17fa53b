import StyleFunctions.Color.Blend
import StyleFunctions.Proofs.Scalar.Real

/-!
Blends are composited by areas: a point shows the source alone, the backdrop alone, or both blended, each
in proportion to its area, and nothing where neither covers it.
-/

namespace StyleFunctions

open scoped Exact
open Exact (literal literal_zero literal_one)

namespace BlendMode

variable {m n : BlendMode} {ab as cb cs b s : ℝ}

/-- What a covered point shows, by areas. -/
def layered (blended : ℝ → ℝ → ℝ) (ab as cb cs : ℝ) : ℝ :=
  as * (1 - ab) * cs + ab * (1 - as) * cb + as * ab * blended cb cs

theorem coverage_eq (ab as : ℝ) : coverage ab as = as + ab - as * ab := by
  simp only [coverage, literal_one]
  ring

theorem coverage_areas (ab as : ℝ) :
    coverage ab as = as * (1 - ab) + ab * (1 - as) + as * ab := by
  rw [coverage_eq]
  ring

theorem coverage_comm (ab as : ℝ) : coverage ab as = coverage as ab := by
  rw [coverage_eq, coverage_eq]
  ring

theorem composite_eq (mode : BlendMode) (ab as b s : ℝ) :
    mode.composite ab as b s =
      (if 0 < coverage ab as then
        layered mode.channel ab as (b / 255) (s / 255) / coverage ab as
      else mode.channel (b / 255) (s / 255)) * 255 := by
  have areas (cb cs cr : ℝ) : as * cs + ab * (cb - as * (cb + cs - cr)) =
      as * (1 - ab) * cs + ab * (1 - as) * cb + as * ab * cr := by ring
  simp only [composite, layered, literal, literal_zero, areas]

/-! ### Every pair of alphas -/

/-- Fractions that cover nothing are zero. -/
theorem clear_of_uncovered (behind : ab ∈ Set.Icc (0 : ℝ) 1) (ahead : as ∈ Set.Icc (0 : ℝ) 1)
    (uncovered : ¬ 0 < coverage ab as) : ab = 0 ∧ as = 0 := by
  have back : coverage ab as = ab + as * (1 - ab) := by
    rw [coverage_eq]
    ring
  have front : coverage ab as = as + ab * (1 - as) := by
    rw [coverage_eq]
    ring
  have sourceAlone : 0 ≤ as * (1 - ab) := mul_nonneg ahead.1 (sub_nonneg.mpr behind.2)
  have backdropAlone : 0 ≤ ab * (1 - as) := mul_nonneg behind.1 (sub_nonneg.mpr ahead.2)
  exact ⟨by linarith [behind.1], by linarith [ahead.1]⟩

theorem composite_mul_coverage (mode : BlendMode) (behind : ab ∈ Set.Icc (0 : ℝ) 1)
    (ahead : as ∈ Set.Icc (0 : ℝ) 1) :
    mode.composite ab as b s / 255 * coverage ab as =
      layered mode.channel ab as (b / 255) (s / 255) := by
  rw [composite_eq, mul_div_cancel_right₀ _ (by norm_num)]
  split
  · rename_i covered
    exact div_mul_cancel₀ _ covered.ne'
  · rename_i uncovered
    obtain ⟨rfl, rfl⟩ := clear_of_uncovered behind ahead uncovered
    simp only [coverage_eq, layered, zero_mul, mul_zero, add_zero, sub_zero]

/-- A color laid over another by the standard rule. -/
structure Layers (mode : BlendMode) (backdrop source result : Rgba ℝ) : Prop where
  alpha : result.alpha = source.alpha + backdrop.alpha - source.alpha * backdrop.alpha
  red : result.red / 255 * result.alpha = layered mode.channel backdrop.alpha source.alpha
    (backdrop.red / 255) (source.red / 255)
  green : result.green / 255 * result.alpha = layered mode.channel backdrop.alpha source.alpha
    (backdrop.green / 255) (source.green / 255)
  blue : result.blue / 255 * result.alpha = layered mode.channel backdrop.alpha source.alpha
    (backdrop.blue / 255) (source.blue / 255)

theorem layers_blend (mode : BlendMode) {backdrop source : Rgba ℝ}
    (behind : backdrop.alpha ∈ Set.Icc 0 1) (ahead : source.alpha ∈ Set.Icc 0 1) :
    mode.Layers backdrop source (mode.blend backdrop source) where
  alpha := coverage_eq backdrop.alpha source.alpha
  red := mode.composite_mul_coverage behind ahead
  green := mode.composite_mul_coverage behind ahead
  blue := mode.composite_mul_coverage behind ahead

/-! ### One layer alone -/

theorem composite_alone (mode : BlendMode) {x : ℝ} (covered : 0 < coverage ab as)
    (alone : layered mode.channel ab as (b / 255) (s / 255) = coverage ab as * (x / 255)) :
    mode.composite ab as b s = x := by
  rw [composite_eq, if_pos covered, alone, mul_div_cancel_left₀ _ covered.ne',
    div_mul_cancel₀ _ (by norm_num)]

theorem composite_clear_source (mode : BlendMode) (covered : 0 < ab) :
    mode.composite ab 0 b s = b := by
  have area : coverage ab 0 = ab := by
    rw [coverage_eq]
    ring
  apply mode.composite_alone (by rwa [area])
  rw [area, layered]
  ring

theorem composite_clear_backdrop (mode : BlendMode) (covered : 0 < as) :
    mode.composite 0 as b s = s := by
  have area : coverage 0 as = as := by
    rw [coverage_eq]
    ring
  apply mode.composite_alone (by rwa [area])
  rw [area, layered]
  ring

theorem blend_clear_source (mode : BlendMode) {backdrop source : Rgba ℝ}
    (clear : source.alpha = 0) (covered : 0 < backdrop.alpha) :
    mode.blend backdrop source = backdrop := by
  simp only [blend, clear, mode.composite_clear_source covered, coverage_eq, zero_add, zero_mul,
    sub_zero]

theorem blend_clear_backdrop (mode : BlendMode) {backdrop source : Rgba ℝ}
    (clear : backdrop.alpha = 0) (covered : 0 < source.alpha) :
    mode.blend backdrop source = source := by
  simp only [blend, clear, mode.composite_clear_backdrop covered, coverage_eq, add_zero, mul_zero,
    sub_zero]

/-! ### Layers that change places -/

theorem composite_swap (mirrored : ∀ cb cs : ℝ, m.channel cb cs = n.channel cs cb) :
    m.composite ab as b s = n.composite as ab s b := by
  have shown : layered m.channel ab as (b / 255) (s / 255) =
      layered n.channel as ab (s / 255) (b / 255) := by
    unfold layered
    rw [mirrored]
    ring
  rw [composite_eq, composite_eq, coverage_comm, shown, mirrored]

/-- Modes that mirror each other on the channels do so on colors. -/
theorem blend_swap (mirrored : ∀ cb cs : ℝ, m.channel cb cs = n.channel cs cb) (x y : Rgba ℝ) :
    m.blend x y = n.blend y x := by
  simp only [blend, composite_swap mirrored, coverage_comm x.alpha]

/-- The modes that do not tell the source from the backdrop. -/
def evenModes : List BlendMode :=
  [.multiply, .screen, .difference, .exclusion, .average, .negation]

theorem channel_comm {mode : BlendMode} (even : mode ∈ evenModes) (cb cs : ℝ) :
    mode.channel cb cs = mode.channel cs cb := by
  have distance : Scalar.abs (cb - cs) = Scalar.abs (cs - cb) := abs_sub_comm cb cs
  simp only [evenModes, List.mem_cons, List.not_mem_nil, or_false] at even
  rcases even with rfl | rfl | rfl | rfl | rfl | rfl
  · exact mul_comm cb cs
  · simp only [channel, screenChannel, add_comm cb, mul_comm cb]
  · exact distance
  · simp only [channel, literal]
    ring
  · simp only [channel, add_comm cb]
  · simp only [channel, add_comm cb]

end BlendMode

open BlendMode in
/-- Over the real numbers every mode composites its colors by the standard rule. So a fully transparent
layer leaves the other one as it is, the modes that are even on the channels are even on colors, and hard
light is overlay with its layers exchanged. -/
theorem blends_composite (backdrop source : Rgba ℝ) (behind : backdrop.alpha ∈ Set.Icc 0 1)
    (ahead : source.alpha ∈ Set.Icc 0 1) :
    (∀ mode : BlendMode,
      mode.Layers backdrop source (mode.blend backdrop source) ∧
      (source.alpha = 0 → backdrop.alpha ≠ 0 → mode.blend backdrop source = backdrop) ∧
      (backdrop.alpha = 0 → source.alpha ≠ 0 → mode.blend backdrop source = source)) ∧
    (∀ mode ∈ [multiply, screen, difference, exclusion, average, negation],
      mode.blend backdrop source = mode.blend source backdrop) ∧
    hardLight.blend backdrop source = overlay.blend source backdrop := by
  refine ⟨?modes, ?even, blend_swap (fun _ _ => rfl) backdrop source⟩
  case modes =>
    intro mode
    refine ⟨mode.layers_blend behind ahead, ?_, ?_⟩
    · intro clear shown
      exact mode.blend_clear_source clear (lt_of_le_of_ne behind.1 shown.symm)
    · intro clear shown
      exact mode.blend_clear_backdrop clear (lt_of_le_of_ne ahead.1 shown.symm)
  case even =>
    intro mode even
    exact blend_swap (channel_comm even) backdrop source

/-- Half of orange over an opaque grey, and over nothing. -/
theorem blends_composite_orange :
    (1 / 2 : ℝ) ∈ Set.Icc 0 1 ∧ (1 : ℝ) ∈ Set.Icc 0 1 ∧ (0 : ℝ) ∈ Set.Icc 0 1 ∧
      BlendMode.screen.blend (⟨51, 51, 51, 1⟩ : Rgba ℝ) ⟨255, 102, 0, 1 / 2⟩ =
        BlendMode.screen.blend ⟨255, 102, 0, 1 / 2⟩ ⟨51, 51, 51, 1⟩ ∧
      BlendMode.softLight.blend (⟨51, 51, 51, 0⟩ : Rgba ℝ) ⟨255, 102, 0, 1 / 2⟩ =
        ⟨255, 102, 0, 1 / 2⟩ := by
  have half : (1 / 2 : ℝ) ∈ Set.Icc 0 1 := by norm_num
  have one : (1 : ℝ) ∈ Set.Icc 0 1 := by norm_num
  have zero : (0 : ℝ) ∈ Set.Icc 0 1 := by norm_num
  have laid := blends_composite ⟨51, 51, 51, 1⟩ ⟨255, 102, 0, 1 / 2⟩ one half
  have alone := blends_composite ⟨51, 51, 51, 0⟩ ⟨255, 102, 0, 1 / 2⟩ zero half
  exact ⟨half, one, zero, laid.2.1 .screen (by simp),
    (alone.1 .softLight).2.2 rfl (by norm_num)⟩

end StyleFunctions
