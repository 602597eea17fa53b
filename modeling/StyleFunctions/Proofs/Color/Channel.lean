import Mathlib.Data.Rat.Floor
import StyleFunctions.Library.Colors
import StyleFunctions.Proofs.Color.Encoding
import StyleFunctions.Proofs.Scalar.Whole

/-!
What is read off a color. A channel is in range before it is rounded, and rounding leads out of no
range that ends at whole numbers; but the range of the hues has its end at a full turn, which is no
hue, and a hue next to it is rounded to it.
-/

namespace StyleFunctions

open scoped Exact
open Exact (literal nearest)

theorem Hsv.fractions_ofRgba {K : Type} [Field K] [LinearOrder K] [FloorRing K]
    [IsStrictOrderedRing K] {c : Rgba K} (shown : c.Displayable) :
    (ofRgba c).saturation ∈ Set.Icc 0 1 ∧ (ofRgba c).value ∈ Set.Icc 0 1 := by
  obtain ⟨lower, upper⟩ := ChannelSpan.extremes_of_displayable shown
  have ordered := ChannelSpan.smallest_le c
  have bright := lower.trans ordered
  rw [ofRgba_eq]
  dsimp only
  refine ⟨?_, bright, upper⟩
  split
  · exact ⟨le_rfl, zero_le_one⟩
  · rw [ChannelSpan.chroma_eq]
    exact ⟨div_nonneg (sub_nonneg.mpr ordered) bright,
      div_le_one_of_le₀ (sub_le_self _ lower) bright⟩

namespace Channel

section

variable {K : Type} [Field K] [LinearOrder K] [FloorRing K]

/-- What a channel measures, in the unit that it is read in. -/
def measured (channel : Channel) (c : Rgba K) : K :=
  match channel with
  | .hue => (Hsl.ofRgba c).hue
  | .saturation => (Hsl.ofRgba c).saturation * 100
  | .lightness => (Hsl.ofRgba c).lightness * 100
  | .hsvHue => (Hsv.ofRgba c).hue
  | .hsvSaturation => (Hsv.ofRgba c).saturation * 100
  | .hsvValue => (Hsv.ofRgba c).value * 100
  | .red => c.red
  | .green => c.green
  | .blue => c.blue
  | .alpha => c.alpha

def unit : Channel → String
  | .saturation | .lightness | .hsvSaturation | .hsvValue => "%"
  | _ => ""

/-- The end of the range of a channel, which starts at zero. -/
def top : Channel → ℤ
  | .hue | .hsvHue => 360
  | .saturation | .lightness | .hsvSaturation | .hsvValue => 100
  | .red | .green | .blue => 255
  | .alpha => 1

variable {channel : Channel} {c : Rgba K}

theorem read_eq (rounded : channel ≠ .alpha) (c : Rgba K) :
    channel.read c = ⟨(nearest (channel.measured c) : K), channel.unit⟩ := by
  cases channel
  case alpha => exact absurd rfl rounded
  all_goals
    simp only [read, Dimension.plain, Dimension.percentOfFraction, Dimension.percent,
      Exact.round_eq_nearest, literal, measured, unit]

variable [IsStrictOrderedRing K]

theorem measured_mem (inside : c.InGamut) (channel : Channel) :
    channel.measured c ∈ Set.Icc ((0 : ℤ) : K) channel.top := by
  obtain ⟨saturation, lightness, _, _⟩ := Hsl.levels_ofRgba inside.toDisplayable
  obtain ⟨purity, value⟩ := Hsv.fractions_ofRgba inside.toDisplayable
  have turn := (ChannelSpan.wheelColor_hue c).1
  have hue : (ChannelSpan.ofRgba c).hue ∈ Set.Icc (0 : K) 360 := ⟨turn.1, turn.2.le⟩
  have percent {x : K} (part : x ∈ Set.Icc (0 : K) 1) : x * 100 ∈ Set.Icc (0 : K) 100 := by
    obtain ⟨lower, upper⟩ := part
    constructor <;> linarith
  cases channel <;> simp only [measured, top, Int.cast_zero, Int.cast_ofNat, Int.cast_one]
  case hue => exact hue
  case saturation => exact percent saturation
  case lightness => exact percent lightness
  case hsvHue => exact hue
  case hsvSaturation => exact percent purity
  case hsvValue => exact percent value
  case red => exact inside.red
  case green => exact inside.green
  case blue => exact inside.blue
  case alpha => exact inside.alpha

/-- A channel that is rounded is read as the nearest whole number, which is in its range. -/
theorem exists_read {symbol : String} {limit : ℤ} (inside : c.InGamut) (rounded : channel ≠ .alpha)
    (unit : channel.unit = symbol) (top : channel.top = limit) :
    ∃ n : ℤ, channel.read c = ⟨(n : K), symbol⟩ ∧ |channel.measured c - n| ≤ 1 / 2 ∧
      0 ≤ n ∧ n ≤ limit := by
  obtain ⟨lower, upper⟩ := Exact.nearest_mem (measured_mem inside channel)
  rw [← unit, ← top]
  exact ⟨_, read_eq rounded c, Exact.abs_sub_nearest _, lower, upper⟩

/-- A hue is read as one exactly where it is not nearest to the full turn. -/
theorem exists_read_hue (inside : c.InGamut) (hue : channel.measured c = (Hsl.ofRgba c).hue)
    (rounded : channel ≠ .alpha) :
    ∃ n : ℤ, channel.read c = ⟨(n : K), channel.unit⟩ ∧ |(Hsl.ofRgba c).hue - n| ≤ 1 / 2 ∧
      0 ≤ n ∧ n ≤ 360 ∧ (n < 360 ↔ (Hsl.ofRgba c).hue < 719 / 2) := by
  have turn : (Hsl.ofRgba c).hue ∈ Set.Icc ((0 : ℤ) : K) (360 : ℤ) := measured_mem inside .hue
  have nonneg : 0 ≤ (Hsl.ofRgba c).hue := by simpa using turn.1
  have last : ((360 : ℤ) : K) - 1 / 2 = 719 / 2 := by norm_num
  have range := Exact.nearest_mem turn
  refine ⟨nearest (Hsl.ofRgba c).hue, ?_, Exact.abs_sub_nearest _, range.1, range.2, ?_⟩
  · rw [read_eq rounded c, hue]
  · rw [Exact.nearest_lt_iff nonneg, last]

end

end Channel

open Channel in
/-- Over exact numbers, for every color in the gamut: the channels from `0` to `255` and the
percentages are read as the nearest whole numbers, which are in range, and the alpha is read as it
is. Both hues are read as the nearest whole number of degrees: from `0` to `359` for a hue below
`359.5` degrees, and as `360` for any other. -/
theorem channels_in_range {K : Type} [Field K] [LinearOrder K] [FloorRing K] [IsStrictOrderedRing K]
    (c : Rgba K) (inside : c.InGamut) :
    (∀ (context : Context K) (channel : Channel),
      (Library.channel channel).call context [.color c] = .number (channel.read c)) ∧
    (∀ channel ∈ [hue, hsvHue], ∃ n : ℤ, channel.read c = .plain (n : K) ∧
      |(Hsl.ofRgba c).hue - n| ≤ 1 / 2 ∧ 0 ≤ n ∧ n ≤ 360 ∧
      (n < 360 ↔ (Hsl.ofRgba c).hue < 719 / 2)) ∧
    (∀ channel ∈ [saturation, lightness, hsvSaturation, hsvValue],
      ∃ n : ℤ, channel.read c = .percent (n : K) ∧ |channel.measured c - n| ≤ 1 / 2 ∧
        0 ≤ n ∧ n ≤ 100) ∧
    (∀ channel ∈ [red, green, blue], ∃ n : ℤ, channel.read c = .plain (n : K) ∧
      |channel.measured c - n| ≤ 1 / 2 ∧ 0 ≤ n ∧ n ≤ 255) ∧
    alpha.read c = .plain c.alpha ∧ c.alpha ∈ Set.Icc 0 1 := by
  refine ⟨?calls, ?hues, ?percentages, ?bytes, rfl, inside.alpha⟩
  case calls =>
    intro context channel
    rfl
  case hues =>
    intro channel hue
    simp only [List.mem_cons, List.not_mem_nil, or_false] at hue
    rcases hue with rfl | rfl
    · exact exists_read_hue inside rfl nofun
    · exact exists_read_hue inside rfl nofun
  case percentages =>
    intro channel percentage
    simp only [List.mem_cons, List.not_mem_nil, or_false] at percentage
    rcases percentage with rfl | rfl | rfl | rfl <;> exact exists_read inside nofun rfl rfl
  case bytes =>
    intro channel byte
    simp only [List.mem_cons, List.not_mem_nil, or_false] at byte
    rcases byte with rfl | rfl | rfl <;> exact exists_read inside nofun rfl rfl

open Channel in
/-- A red with a little blue, of which the hue is between `359` and `359.5`. -/
theorem channels_in_range_red :
    (⟨255, 0, 3, 1 / 2⟩ : Rgba ℚ).InGamut ∧
      (Hsl.ofRgba (⟨255, 0, 3, 1 / 2⟩ : Rgba ℚ)).hue = 30540 / 85 ∧
      ∃ n : ℤ, hue.read (⟨255, 0, 3, 1 / 2⟩ : Rgba ℚ) = .plain (n : ℚ) ∧ 0 ≤ n ∧ n < 360 := by
  have inside : (⟨255, 0, 3, 1 / 2⟩ : Rgba ℚ).InGamut := by
    constructor
    · constructor <;> norm_num
    · norm_num
  have place : (Hsl.ofRgba (⟨255, 0, 3, 1 / 2⟩ : Rgba ℚ)).hue = 30540 / 85 := by decide +kernel
  obtain ⟨n, same, _, nonneg, _, short⟩ := (channels_in_range _ inside).2.1 hue (by simp)
  refine ⟨inside, place, n, same, nonneg, short.mpr ?_⟩
  rw [place]
  norm_num

/-- A red with less blue has the hue of a full turn. -/
theorem hue_reads_full_turn :
    ¬ ∀ c : Rgba ℚ, c.InGamut →
      ∃ n : ℤ, Channel.hue.read c = .plain (n : ℚ) ∧ 0 ≤ n ∧ n < 360 := by
  intro short
  have inside : (⟨255, 0, 1, 1⟩ : Rgba ℚ).InGamut := by
    constructor
    · constructor <;> norm_num
    · norm_num
  have full : Channel.hue.read (⟨255, 0, 1, 1⟩ : Rgba ℚ) = .plain 360 := by decide +kernel
  obtain ⟨n, same, _, below⟩ := short _ inside
  rw [full, Dimension.plain, Dimension.plain, Dimension.mk.injEq] at same
  have turn : n = 360 := by exact_mod_cast same.1.symm
  omega

end StyleFunctions
