import Mathlib.Analysis.Convex.Basic
import StyleFunctions.Color.Adjustment
import StyleFunctions.Color.Mix
import StyleFunctions.Proofs.Color.Compositing
import StyleFunctions.Proofs.Color.Encoding

/-!
The operations on colors stay in the gamut. Whatever is composed of hue, saturation and lightness is in
it; mixtures and blends are of colors that are in it, since they are convex combinations of channels.
-/

namespace StyleFunctions

open scoped Exact
open Exact (literal literal_zero literal_one literal_fraction)

section

variable {K : Type} [Field K] [LinearOrder K] [IsStrictOrderedRing K] {lo hi x y share : K}

/-- Two values of an interval in any proportion. -/
theorem between_mem (left : x ∈ Set.Icc lo hi) (right : y ∈ Set.Icc lo hi)
    (part : share ∈ Set.Icc (0 : K) 1) : x * share + y * (1 - share) ∈ Set.Icc lo hi := by
  have inside := convex_Icc lo hi left right part.1 (sub_nonneg.mpr part.2) (add_sub_cancel share 1)
  simpa only [smul_eq_mul, mul_comm] using inside

theorem scaled_mem (unit : x ∈ Set.Icc (0 : K) 1) : x * 255 ∈ Set.Icc (0 : K) 255 := by
  obtain ⟨lower, upper⟩ := unit
  constructor <;> linarith

theorem fraction_mem (channel : x ∈ Set.Icc (0 : K) 255) : x / 255 ∈ Set.Icc (0 : K) 1 := by
  obtain ⟨lower, upper⟩ := channel
  constructor <;> linarith

theorem complement_mem (unit : x ∈ Set.Icc (0 : K) 1) : 1 - x ∈ Set.Icc (0 : K) 1 := by
  obtain ⟨lower, upper⟩ := unit
  constructor <;> linarith

theorem difference_mem (left : x ∈ Set.Icc (0 : K) 1) (right : y ∈ Set.Icc (0 : K) 1) :
    x - y ∈ Set.Icc (-1 : K) 1 := by
  obtain ⟨lower, upper⟩ := left
  obtain ⟨lower', upper'⟩ := right
  constructor <;> linarith

theorem product_mem (left : x ∈ Set.Icc (0 : K) 1) (right : y ∈ Set.Icc (0 : K) 1) :
    x * y ∈ Set.Icc (0 : K) 1 :=
  ⟨mul_nonneg left.1 right.1, mul_le_one₀ left.2 right.1 right.2⟩

/-- A mean of fractions with any weights. -/
theorem mean_mem {u v w z : K} (first : 0 ≤ u) (second : 0 ≤ v) (third : 0 ≤ w)
    (total : 0 < u + v + w) (left : x ∈ Set.Icc (0 : K) 1) (middle : y ∈ Set.Icc (0 : K) 1)
    (right : z ∈ Set.Icc (0 : K) 1) : (u * x + v * y + w * z) / (u + v + w) ∈ Set.Icc (0 : K) 1 := by
  constructor
  · have parts := add_nonneg (add_nonneg (mul_nonneg first left.1) (mul_nonneg second middle.1))
      (mul_nonneg third right.1)
    exact div_nonneg parts total.le
  · rw [div_le_one total]
    exact add_le_add (add_le_add (mul_le_of_le_one_right first left.2)
      (mul_le_of_le_one_right second middle.2)) (mul_le_of_le_one_right third right.2)

end

variable {K : Type} [Field K] [LinearOrder K] [FloorRing K]

section

variable [IsStrictOrderedRing K] {low high t alpha : K}

/-! ### Hue, saturation and lightness -/

namespace Hsl

theorem phase_mem (ordered : low ≤ high) {x : K} (lower : 0 ≤ x) :
    phase low high x ∈ Set.Icc low high := by
  have level {share : K} (part : share ∈ Set.Icc (0 : K) 1) :
      low + (high - low) * share ∈ Set.Icc low high := by
    have inside := between_mem (Set.right_mem_Icc.mpr ordered) (Set.left_mem_Icc.mpr ordered) part
    convert inside using 1
    ring
  unfold phase
  split
  · rw [mul_assoc]
    exact level ⟨by linarith, by linarith⟩
  · split
    · exact Set.right_mem_Icc.mpr ordered
    · split
      · rw [mul_assoc]
        exact level ⟨by linarith, by linarith⟩
      · exact Set.left_mem_Icc.mpr ordered

theorem ramp_mem (ordered : low ≤ high) {x : K} (lower : -1 ≤ x) :
    ramp low high x ∈ Set.Icc low high := by
  rw [ramp_eq]
  apply phase_mem ordered
  split
  · linarith
  · split <;> linarith

end Hsl

theorem wheelColor_inGamut (first : 0 ≤ low) (ordered : low ≤ high) (last : high ≤ 1)
    (place : 0 ≤ t) (opacity : alpha ∈ Set.Icc (0 : K) 1) :
    (wheelColor low high t alpha).InGamut := by
  have channel {x : K} (lower : -1 ≤ x) : Hsl.ramp low high x * 255 ∈ Set.Icc (0 : K) 255 :=
    scaled_mem (Set.Icc_subset_Icc first last (Hsl.ramp_mem ordered lower))
  exact ⟨⟨channel (by linarith), channel (by linarith), channel (by linarith)⟩, opacity⟩

namespace Hsl

theorem levels_mem {s l : K} (share : s ∈ Set.Icc (0 : K) 1) (light : l ∈ Set.Icc (0 : K) 1) :
    0 ≤ l * 2 - Hsl.high s l ∧ l * 2 - Hsl.high s l ≤ Hsl.high s l ∧ Hsl.high s l ≤ 1 := by
  have room : 0 ≤ min l (1 - l) := le_min light.1 (sub_nonneg.mpr light.2)
  have half : 0 ≤ s * min l (1 - l) := mul_nonneg share.1 room
  have most : s * min l (1 - l) ≤ min l (1 - l) := mul_le_of_le_one_left room share.2
  have below := min_le_left l (1 - l)
  have above := min_le_right l (1 - l)
  unfold Hsl.high
  refine ⟨?_, ?_, ?_⟩ <;> linarith

/-- Whatever its hue, saturation and lightness are, the color is in the gamut. -/
theorem toRgba_inGamut (c : Hsl K) : c.toRgba.InGamut := by
  obtain ⟨first, ordered, last⟩ :=
    levels_mem (Exact.clampUnit_mem c.saturation) (Exact.clampUnit_mem c.lightness)
  rw [toRgba_eq]
  exact wheelColor_inGamut first ordered last (place_mem c.hue).1 (Exact.clampUnit_mem c.alpha)

end Hsl

theorem Adjustment.apply_inGamut (adjustment : Adjustment) (c : Rgba K) (amount : K) :
    (adjustment.apply c amount).InGamut :=
  Hsl.toRgba_inGamut _

/-! ### Mixtures -/

namespace Rgba

omit [IsStrictOrderedRing K] in
theorem grey_inGamut {x : K} (channel : x ∈ Set.Icc (0 : K) 255) :
    (opaqueColor x x x).InGamut := by
  refine ⟨⟨channel, channel, channel⟩, ?_⟩
  simp only [opaqueColor, literal_one]
  exact ⟨zero_le_one, le_rfl⟩

theorem white_inGamut : (white : Rgba K).InGamut := by
  apply grey_inGamut
  rw [literal]
  exact ⟨by norm_num, le_rfl⟩

theorem black_inGamut : (black : Rgba K).InGamut := by
  apply grey_inGamut
  rw [literal_zero]
  exact ⟨le_rfl, by norm_num⟩

omit [LinearOrder K] [FloorRing K] [IsStrictOrderedRing K] in
theorem divisor_ne_zero {v w : K} (moving : v * w ≠ -1) : 1 + v * w ≠ 0 := by
  intro zero
  exact moving (eq_neg_of_add_eq_zero_right zero)

/-- Two numbers from `-1` to `1` are added up as velocities are. -/
theorem velocity_mem {v w : K} (first : v ∈ Set.Icc (-1 : K) 1) (second : w ∈ Set.Icc (-1 : K) 1)
    (moving : v * w ≠ -1) : (v + w) / (1 + v * w) ∈ Set.Icc (-1 : K) 1 := by
  have up : 0 ≤ (1 + v) * (1 + w) :=
    mul_nonneg (neg_le_iff_add_nonneg'.mp first.1) (neg_le_iff_add_nonneg'.mp second.1)
  have down : 0 ≤ (1 - v) * (1 - w) :=
    mul_nonneg (sub_nonneg.mpr first.2) (sub_nonneg.mpr second.2)
  have divisor : 0 < 1 + v * w := lt_of_le_of_ne (by linarith) (divisor_ne_zero moving).symm
  constructor
  · rw [le_div_iff₀ divisor]
    linarith
  · rw [div_le_one divisor]
    linarith

theorem mixShare_mem {weight lead : K} (part : weight ∈ Set.Icc (0 : K) 1)
    (difference : lead ∈ Set.Icc (-1 : K) 1) : mixShare weight lead ∈ Set.Icc (0 : K) 1 := by
  have around : weight * 2 - 1 ∈ Set.Icc (-1 : K) 1 := by
    obtain ⟨lower, upper⟩ := part
    constructor <;> linarith
  have centered {x : K} (inside : x ∈ Set.Icc (-1 : K) 1) : (x + 1) / 2 ∈ Set.Icc (0 : K) 1 := by
    obtain ⟨lower, upper⟩ := inside
    constructor <;> linarith
  simp only [mixShare, literal, literal_one, beq_iff_eq]
  split
  · exact centered around
  · rename_i moving
    exact centered (velocity_mem around difference moving)

theorem mix_inGamut {c d : Rgba K} (left : c.InGamut) (right : d.InGamut) {weight : K}
    (part : weight ∈ Set.Icc (0 : K) 1) : (c.mix d weight).InGamut := by
  have share := mixShare_mem part (difference_mem left.alpha right.alpha)
  simp only [mix, literal_one]
  exact ⟨⟨between_mem left.red right.red share, between_mem left.green right.green share,
    between_mem left.blue right.blue share⟩, between_mem left.alpha right.alpha part⟩

end Rgba

/-! ### Blends -/

namespace BlendMode

variable {cb cs : K}

theorem multiplyChannel_mem (backdrop : cb ∈ Set.Icc (0 : K) 1) (source : cs ∈ Set.Icc (0 : K) 1) :
    multiplyChannel cb cs ∈ Set.Icc (0 : K) 1 :=
  product_mem backdrop source

theorem screenChannel_mem (backdrop : cb ∈ Set.Icc (0 : K) 1) (source : cs ∈ Set.Icc (0 : K) 1) :
    screenChannel cb cs ∈ Set.Icc (0 : K) 1 := by
  have dark : 1 - (1 - cb) * (1 - cs) = screenChannel cb cs := by
    unfold screenChannel
    ring
  rw [← dark]
  exact complement_mem (product_mem (complement_mem backdrop) (complement_mem source))

theorem overlayChannel_mem (backdrop : cb ∈ Set.Icc (0 : K) 1) (source : cs ∈ Set.Icc (0 : K) 1) :
    overlayChannel cb cs ∈ Set.Icc (0 : K) 1 := by
  obtain ⟨lower, upper⟩ := backdrop
  simp only [overlayChannel, literal, literal_one]
  split
  · rename_i dark
    exact multiplyChannel_mem ⟨by linarith, dark⟩ source
  · exact screenChannel_mem ⟨by linarith, by linarith⟩ source

end BlendMode

end

namespace BlendMode

variable {cb cs ab as : ℝ}

/-- The backdrop where a light source brightens it most. -/
noncomputable def brightest (cb : ℝ) : ℝ :=
  if 1 / 4 < cb then √cb else ((16 * cb - 12) * cb + 4) * cb

theorem brightest_mem (backdrop : cb ∈ Set.Icc (0 : ℝ) 1) : brightest cb ∈ Set.Icc cb 1 := by
  obtain ⟨lower, upper⟩ := backdrop
  unfold brightest
  split
  · refine ⟨?_, Real.sqrt_le_one.mpr upper⟩
    exact Real.le_sqrt_of_sq_le (by nlinarith)
  · rename_i dark
    have quarter : cb ≤ 1 / 4 := not_lt.mp dark
    have gain : ((16 * cb - 12) * cb + 4) * cb - cb = cb * (16 * (cb - 3 / 8) ^ 2 + 3 / 4) := by ring
    have room : 1 - ((16 * cb - 12) * cb + 4) * cb = (1 - 4 * cb) + (12 - 16 * cb) * (cb * cb) := by
      ring
    constructor
    · rw [← sub_nonneg, gain]
      positivity
    · rw [← sub_nonneg, room]
      exact add_nonneg (by linarith) (mul_nonneg (by linarith) (mul_nonneg lower lower))

/-- A light source moves the backdrop up toward its brightest, a dark one down toward its square. -/
theorem softLightChannel_eq (cb cs : ℝ) :
    softLightChannel cb cs =
      if 1 / 2 < cs then brightest cb * (2 * cs - 1) + cb * (1 - (2 * cs - 1))
      else cb * cb * (1 - 2 * cs) + cb * (1 - (1 - 2 * cs)) := by
  have half : (@OfScientific.ofScientific ℝ Scalar.instOfScientific 5 true 1 : ℝ) = 1 / 2 := by
    rw [literal_fraction]
    norm_num
  have quarter : (@OfScientific.ofScientific ℝ Scalar.instOfScientific 25 true 2 : ℝ) = 1 / 4 := by
    rw [literal_fraction]
    norm_num
  have root : Elementary.sqrt cb = √cb := rfl
  simp only [softLightChannel, brightest, literal, literal_one, half, quarter, root]
  split
  · ring
  · ring

theorem softLightChannel_mem (backdrop : cb ∈ Set.Icc (0 : ℝ) 1) (source : cs ∈ Set.Icc (0 : ℝ) 1) :
    softLightChannel cb cs ∈ Set.Icc (0 : ℝ) 1 := by
  obtain ⟨lower, upper⟩ := source
  rw [softLightChannel_eq]
  split
  · have bright := Set.Icc_subset_Icc_left backdrop.1 (brightest_mem backdrop)
    exact between_mem bright backdrop ⟨by linarith, by linarith⟩
  · exact between_mem (product_mem backdrop backdrop) backdrop ⟨by linarith, by linarith⟩

/-- Every mode blends fractions to a fraction. -/
theorem channel_mem (mode : BlendMode) (backdrop : cb ∈ Set.Icc (0 : ℝ) 1)
    (source : cs ∈ Set.Icc (0 : ℝ) 1) : mode.channel cb cs ∈ Set.Icc (0 : ℝ) 1 := by
  have ⟨backLower, backUpper⟩ := backdrop
  have ⟨sourceLower, sourceUpper⟩ := source
  have distance (x : ℝ) : Scalar.abs x = |x| := rfl
  cases mode with
  | multiply => exact multiplyChannel_mem backdrop source
  | screen => exact screenChannel_mem backdrop source
  | overlay => exact overlayChannel_mem backdrop source
  | softLight => exact softLightChannel_mem backdrop source
  | hardLight => exact overlayChannel_mem source backdrop
  | difference => exact ⟨abs_nonneg _, abs_le.mpr ⟨by linarith, by linarith⟩⟩
  | exclusion =>
      have turned : (1 - cb) * cs + cb * (1 - cs) = channel .exclusion cb cs := by
        simp only [channel, literal]
        ring
      rw [← turned]
      exact between_mem (complement_mem backdrop) backdrop source
  | average =>
      simp only [channel, literal]
      constructor <;> linarith
  | negation =>
      simp only [channel, literal_one, distance]
      exact complement_mem ⟨abs_nonneg _, abs_le.mpr ⟨by linarith, by linarith⟩⟩

theorem coverage_mem (backdrop : ab ∈ Set.Icc (0 : ℝ) 1) (source : as ∈ Set.Icc (0 : ℝ) 1) :
    coverage ab as ∈ Set.Icc (0 : ℝ) 1 := by
  have screened : screenChannel ab as = coverage ab as := by
    simp only [screenChannel, coverage, literal_one]
    ring
  rw [← screened]
  exact screenChannel_mem backdrop source

/-- What covers a point is the source alone, the backdrop alone, or the blend of both, in proportion to
their areas. -/
theorem composite_mem (mode : BlendMode) {b s : ℝ} (behind : ab ∈ Set.Icc (0 : ℝ) 1)
    (ahead : as ∈ Set.Icc (0 : ℝ) 1) (backdrop : b ∈ Set.Icc (0 : ℝ) 255)
    (source : s ∈ Set.Icc (0 : ℝ) 255) : mode.composite ab as b s ∈ Set.Icc (0 : ℝ) 255 := by
  have cb := fraction_mem backdrop
  have cs := fraction_mem source
  have cr := mode.channel_mem cb cs
  rw [composite_eq]
  apply scaled_mem
  split
  · rename_i covered
    rw [coverage_areas] at covered ⊢
    exact mean_mem (mul_nonneg ahead.1 (complement_mem behind).1)
      (mul_nonneg behind.1 (complement_mem ahead).1) (mul_nonneg ahead.1 behind.1) covered cs cb cr
  · exact cr

theorem blend_inGamut (mode : BlendMode) {c d : Rgba ℝ} (backdrop : c.InGamut) (source : d.InGamut) :
    (mode.blend c d).InGamut := by
  have laid {b s : ℝ} := mode.composite_mem (b := b) (s := s) backdrop.alpha source.alpha
  exact ⟨⟨laid backdrop.red source.red, laid backdrop.green source.green,
    laid backdrop.blue source.blue⟩, coverage_mem backdrop.alpha source.alpha⟩

end BlendMode

end StyleFunctions
