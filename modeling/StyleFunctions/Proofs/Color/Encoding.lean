import StyleFunctions.Proofs.Color.Checked
import StyleFunctions.Proofs.Color.Decoding
import StyleFunctions.Proofs.Color.Hue

/-!
Between the channels of a color and its two cylindrical views nothing is lost: a color is decoded from
either view of it, and a view with chroma is read off the color that it is decoded to.
-/

namespace StyleFunctions

open scoped Exact Checked
open Exact (literal literal_zero literal_one)

section Range

variable {K : Type} [Field K] [LinearOrder K]

/-- Channels that a display can show. -/
structure Rgba.Displayable (c : Rgba K) : Prop where
  red : c.red ∈ Set.Icc 0 255
  green : c.green ∈ Set.Icc 0 255
  blue : c.blue ∈ Set.Icc 0 255

structure Rgba.InGamut (c : Rgba K) : Prop extends c.Displayable where
  alpha : c.alpha ∈ Set.Icc 0 1

end Range

variable {K : Type} [Field K] [LinearOrder K] [FloorRing K] {low high t r g b : K}

theorem Hsv.ofRgba_eq (c : Rgba K) :
    Hsv.ofRgba c =
      let e := ChannelSpan.ofRgba c
      ⟨e.hue, if e.largest = 0 then 0 else e.chroma / e.largest, e.largest, c.alpha⟩ := by
  simp only [ofRgba, beq_iff_eq, literal_zero]

namespace ChannelSpan

theorem ofRgba_wheelColor {alpha : K} (same : wheel low high t = (r, g, b)) :
    ofRgba (wheelColor low high t alpha) = ofFractions r g b := by
  rw [ofRgba_eq, wheelColor, same]
  simp

theorem wheelColor_of_wheel {c : Rgba K}
    (same : wheel low high t = (c.red / 255, c.green / 255, c.blue / 255)) :
    wheelColor low high t c.alpha = c := by
  rw [wheelColor, same]
  simp

theorem smallest_le (c : Rgba K) : (ofRgba c).smallest ≤ (ofRgba c).largest := by
  rw [ofRgba_eq]
  exact smallest_le_largest

variable [IsStrictOrderedRing K]

theorem extremes_of_displayable {c : Rgba K} (shown : c.Displayable) :
    0 ≤ (ofRgba c).smallest ∧ (ofRgba c).largest ≤ 1 := by
  have fraction {x : K} (inside : x ∈ Set.Icc (0 : K) 255) : 0 ≤ x / 255 ∧ x / 255 ≤ 1 := by
    obtain ⟨lower, upper⟩ := inside
    constructor <;> linarith
  rw [ofRgba_eq]
  exact ⟨le_min (le_min (fraction shown.red).1 (fraction shown.green).1) (fraction shown.blue).1,
    max_le (max_le (fraction shown.red).2 (fraction shown.green).2) (fraction shown.blue).2⟩

omit [IsStrictOrderedRing K] in
/-- A grey stands anywhere on the wheel, so also at the place of red. -/
theorem wheel_grey (grey : (ofFractions r g b).chroma = 0) :
    wheel (ofFractions r g b).smallest (ofFractions r g b).largest 0 = (r, g, b) := by
  have flat : max (max r g) b = min (min r g) b := sub_eq_zero.mp grey
  have level {x : K} (lower : min (min r g) b ≤ x) (upper : x ≤ max (max r g) b) :
      min (min r g) b = x :=
    le_antisymm lower (flat ▸ upper)
  have red := level (min_le_of_left_le (min_le_left r g)) (le_max_of_le_left (le_max_left r g))
  have green := level (min_le_of_left_le (min_le_right r g)) (le_max_of_le_left (le_max_right r g))
  have blue := level (min_le_right _ b) (le_max_right _ b)
  change wheel (min (min r g) b) (max (max r g) b) 0 = (r, g, b)
  rw [flat, wheel_flat, Prod.mk.injEq, Prod.mk.injEq]
  exact ⟨red, green, blue⟩

/-- Every color stands on the wheel between its extreme channels where its hue says. -/
theorem wheelColor_hue (c : Rgba K) :
    (ofRgba c).hue ∈ Set.Ico 0 360 ∧
      wheelColor (ofRgba c).smallest (ofRgba c).largest (Scalar.cyclic (ofRgba c).hue 360 / 60)
        c.alpha = c := by
  rw [hue_eq, ofRgba_eq]
  split
  · rename_i grey
    refine ⟨⟨le_rfl, by norm_num⟩, wheelColor_of_wheel ?_⟩
    rw [Exact.cyclic_of_mem le_rfl (by norm_num), zero_div]
    exact wheel_grey grey
  · rename_i colored
    obtain ⟨first, last, place⟩ := wheel_sector colored
    have lower := mul_nonneg first (by norm_num : (0 : K) ≤ 60)
    have upper : (ofFractions (c.red / 255) (c.green / 255) (c.blue / 255)).sector * 60 < 360 := by
      linarith
    refine ⟨⟨lower, upper⟩, wheelColor_of_wheel ?_⟩
    rw [Exact.cyclic_of_mem lower upper, mul_div_cancel_right₀ _ (by norm_num)]
    exact place

/-- The levels and the hue of a place can be read off its color. -/
theorem ofRgba_place (less : low < high) {hue : K} (inside : hue ∈ Set.Ico 0 360) (alpha : K) :
    let e := ofRgba (wheelColor low high (Scalar.cyclic hue 360 / 60) alpha)
    e.largest = high ∧ e.smallest = low ∧ e.hue = hue := by
  intro e
  obtain ⟨first, last⟩ := inside
  obtain ⟨largest, smallest, sector⟩ := ofFractions_wheel less (div_nonneg first (by norm_num))
    (by linarith : hue / 60 < 6) rfl
  have span : e = ofFractions _ _ _ := ofRgba_wheelColor rfl
  rw [Exact.cyclic_of_mem first last] at span
  have colored : (high - low : K) ≠ 0 := sub_ne_zero.mpr less.ne'
  rw [span, hue_eq, chroma_eq, largest, smallest, if_neg colored, sector]
  exact ⟨rfl, rfl, div_mul_cancel₀ _ (by norm_num)⟩

end ChannelSpan

variable [IsStrictOrderedRing K]

namespace Hsl

open ChannelSpan (extremes_of_displayable smallest_le wheelColor_hue ofRgba_place)

/-- A color with chroma lets no divisor vanish. -/
theorem divisors_pos {c : Rgba K} (shown : c.Displayable)
    (colored : (ChannelSpan.ofRgba c).chroma ≠ 0) :
    0 < (ChannelSpan.ofRgba c).chroma ∧
      0 < 2 - (ChannelSpan.ofRgba c).largest - (ChannelSpan.ofRgba c).smallest ∧
      0 < (ChannelSpan.ofRgba c).largest + (ChannelSpan.ofRgba c).smallest := by
  obtain ⟨lower, upper⟩ := extremes_of_displayable shown
  have less := lt_of_le_of_ne (smallest_le c) (sub_ne_zero.mp colored).symm
  exact ⟨sub_pos.mpr less, by linarith, by linarith⟩

/-- The saturation is the chroma as a share of the largest that the lightness allows. -/
theorem ofRgba_eq (c : Rgba K) :
    ofRgba c =
      let e := ChannelSpan.ofRgba c
      let l := (e.largest + e.smallest) / 2
      ⟨e.hue, e.chroma / (2 * min l (1 - l)), l, c.alpha⟩ := by
  simp only [ofRgba, beq_iff_eq, literal, literal_zero, literal_one]
  generalize ChannelSpan.ofRgba c = e
  have light : 2 - e.largest - e.smallest = 2 * (1 - (e.largest + e.smallest) / 2) := by ring
  have dark : e.largest + e.smallest = 2 * ((e.largest + e.smallest) / 2) := by ring
  congr 1
  split
  · rename_i grey
    rw [grey, zero_div]
  · split
    · rename_i above
      rw [min_eq_right (by linarith), ← light]
    · rename_i below
      rw [min_eq_left (by linarith), ← dark]

/-- A chroma as a share of the largest one that there is room for. -/
theorem share_of_room {d m : K} (nonneg : 0 ≤ d) (room : d ≤ 2 * m) :
    d / (2 * m) ∈ Set.Icc 0 1 ∧ d / (2 * m) * m = d / 2 := by
  refine ⟨⟨div_nonneg nonneg (by linarith), div_le_one_of_le₀ room (by linarith)⟩, ?_⟩
  by_cases none : m = 0
  · have grey : d = 0 := by linarith
    rw [none, grey, mul_zero, zero_div]
  · field_simp

/-- The view is in range and means the extreme channels as levels. -/
theorem levels_ofRgba {c : Rgba K} (shown : c.Displayable) :
    (ofRgba c).saturation ∈ Set.Icc 0 1 ∧ (ofRgba c).lightness ∈ Set.Icc 0 1 ∧
      Hsl.high (ofRgba c).saturation (ofRgba c).lightness = (ChannelSpan.ofRgba c).largest ∧
      (ofRgba c).lightness * 2 - (ChannelSpan.ofRgba c).largest =
        (ChannelSpan.ofRgba c).smallest := by
  obtain ⟨lower, upper⟩ := extremes_of_displayable shown
  have ordered := smallest_le c
  rw [ofRgba_eq]
  dsimp only
  generalize ChannelSpan.ofRgba c = e at lower upper ordered ⊢
  have chroma := e.chroma_eq
  have nonneg : 0 ≤ e.chroma := by linarith
  have room : e.chroma ≤
      2 * min ((e.largest + e.smallest) / 2) (1 - (e.largest + e.smallest) / 2) := by
    rw [chroma, mul_min_of_nonneg _ _ zero_le_two]
    exact le_min (by linarith) (by linarith)
  obtain ⟨share, half⟩ := share_of_room nonneg room
  refine ⟨share, ⟨by linarith, by linarith⟩, ?_, by ring⟩
  rw [Hsl.high, half, chroma]
  ring

/-- A color is decoded from the view of it. -/
theorem toRgba_ofRgba {c : Rgba K} (inside : c.InGamut) : (ofRgba c).toRgba = c := by
  obtain ⟨saturation, lightness, high, low⟩ := levels_ofRgba inside.toDisplayable
  have hue : (ofRgba c).hue = (ChannelSpan.ofRgba c).hue := rfl
  have alpha : (ofRgba c).alpha = c.alpha := rfl
  rw [toRgba_eq]
  dsimp only
  rw [Exact.clampUnit_of_mem saturation.1 saturation.2,
    Exact.clampUnit_of_mem lightness.1 lightness.2, high, low, hue, alpha,
    Exact.clampUnit_of_mem inside.alpha.1 inside.alpha.2]
  exact (wheelColor_hue c).2

/-- A view with chroma is read off its color. -/
theorem ofRgba_toRgba {h s l a : K} (hue : h ∈ Set.Ico 0 360) (share : s ∈ Set.Ioc 0 1)
    (light : l ∈ Set.Ioo 0 1) (alpha : a ∈ Set.Icc 0 1) :
    ofRgba (toRgba ⟨h, s, l, a⟩) = ⟨h, s, l, a⟩ := by
  have room : 0 < min l (1 - l) := lt_min light.1 (sub_pos.mpr light.2)
  have half : 0 < s * min l (1 - l) := mul_pos share.1 room
  have high : Hsl.high s l = l + s * min l (1 - l) := rfl
  have less : l * 2 - Hsl.high s l < Hsl.high s l := by linarith
  obtain ⟨largest, smallest, place⟩ := ofRgba_place less hue a
  have middle : (Hsl.high s l + (l * 2 - Hsl.high s l)) / 2 = l := by ring
  have chroma : Hsl.high s l - (l * 2 - Hsl.high s l) = s * (2 * min l (1 - l)) := by
    rw [high]
    ring
  rw [toRgba_eq]
  dsimp only
  rw [Exact.clampUnit_of_mem share.1.le share.2, Exact.clampUnit_of_mem light.1.le light.2.le,
    Exact.clampUnit_of_mem alpha.1 alpha.2, ofRgba_eq]
  dsimp only
  rw [ChannelSpan.chroma_eq, largest, smallest, place, middle, chroma,
    mul_div_cancel_right₀ _ (by linarith)]
  rfl

end Hsl

namespace Hsv

open ChannelSpan (extremes_of_displayable smallest_le wheelColor_hue ofRgba_place)

/-- A color is decoded from the view of it. -/
theorem toRgba_ofRgba {c : Rgba K} (shown : c.Displayable) : (ofRgba c).toRgba = c := by
  obtain ⟨lower, upper⟩ := extremes_of_displayable shown
  have ordered := smallest_le c
  have low : (ofRgba c).value * (1 - (ofRgba c).saturation) = (ChannelSpan.ofRgba c).smallest := by
    rw [ofRgba_eq]
    dsimp only
    split
    · linarith
    · rw [ChannelSpan.chroma_eq]
      field_simp
      ring
  have hue : (ofRgba c).hue = (ChannelSpan.ofRgba c).hue := rfl
  have value : (ofRgba c).value = (ChannelSpan.ofRgba c).largest := rfl
  have alpha : (ofRgba c).alpha = c.alpha := rfl
  rw [toRgba_eq, low, hue, value, alpha]
  exact (wheelColor_hue c).2

/-- A view with chroma is read off its color. -/
theorem ofRgba_toRgba {h s v a : K} (hue : h ∈ Set.Ico 0 360) (share : 0 < s) (bright : 0 < v) :
    ofRgba (toRgba ⟨h, s, v, a⟩) = ⟨h, s, v, a⟩ := by
  have chroma : v - v * (1 - s) = v * s := by ring
  have pos : 0 < v * s := mul_pos bright share
  have less : v * (1 - s) < v := by linarith
  obtain ⟨largest, smallest, place⟩ := ofRgba_place less hue a
  rw [toRgba_eq, ofRgba_eq]
  dsimp only
  rw [ChannelSpan.chroma_eq, largest, smallest, place, if_neg bright.ne', chroma,
    mul_div_cancel_left₀ _ bright.ne']
  rfl

end Hsv

/-- Over exact numbers a color comes back from its hue, saturation and lightness, which are in range.
Nothing is divided by zero on the way there and back, for no grey either: on numbers that fail when they
are, the view and the color have the same values. Away from the greys the view comes back from the color
as well. -/
theorem hsl_lossless :
    (∀ c : Rgba ℚ, c.InGamut →
      (Hsl.ofRgba c).toRgba = c ∧ (Hsl.ofRgba c).hue ∈ Set.Ico 0 360 ∧
      (Hsl.ofRgba c).saturation ∈ Set.Icc 0 1 ∧ (Hsl.ofRgba c).lightness ∈ Set.Icc 0 1 ∧
      Hsl.ofRgba c.checked = (Hsl.ofRgba c).checked ∧ (Hsl.ofRgba c.checked).toRgba = c.checked) ∧
    ∀ h ∈ Set.Ico (0 : ℚ) 360, ∀ s ∈ Set.Ioc (0 : ℚ) 1, ∀ l ∈ Set.Ioo (0 : ℚ) 1,
      ∀ a ∈ Set.Icc (0 : ℚ) 1, Hsl.ofRgba (Hsl.toRgba ⟨h, s, l, a⟩) = ⟨h, s, l, a⟩ := by
  constructor
  · intro c inside
    obtain ⟨saturation, lightness, _, _⟩ := Hsl.levels_ofRgba inside.toDisplayable
    have encoded : Hsl.ofRgba c.checked = (Hsl.ofRgba c).checked := by
      apply Hsl.ofRgba_checked
      intro colored
      obtain ⟨_, light, dark⟩ := Hsl.divisors_pos inside.toDisplayable colored
      exact ⟨light.ne', dark.ne'⟩
    refine ⟨Hsl.toRgba_ofRgba inside, (ChannelSpan.wheelColor_hue c).1, saturation, lightness, encoded, ?_⟩
    rw [encoded, Hsl.toRgba_checked, Hsl.toRgba_ofRgba inside]
  · intro h hue s share l light a alpha
    exact Hsl.ofRgba_toRgba hue share light alpha

/-- A color in the fifth sixth of the wheel, white on numbers that fail when they are divided by zero, and
a view at the boundary of two sixths. -/
theorem hsl_lossless_purple :
    (⟨120, 40, 200, 1 / 2⟩ : Rgba ℚ).InGamut ∧
      (Hsl.ofRgba (⟨120, 40, 200, 1 / 2⟩ : Rgba ℚ)).toRgba = ⟨120, 40, 200, 1 / 2⟩ ∧
      (Hsl.ofRgba (⟨255, 255, 255, 1⟩ : Rgba ℚ).checked).toRgba = (⟨255, 255, 255, 1⟩ : Rgba ℚ).checked ∧
      Hsl.ofRgba (Hsl.toRgba (⟨300, 1 / 2, 3 / 4, 1⟩ : Hsl ℚ)) = ⟨300, 1 / 2, 3 / 4, 1⟩ := by
  have inside : (⟨120, 40, 200, 1 / 2⟩ : Rgba ℚ).InGamut := by
    constructor
    · constructor <;> norm_num
    · norm_num
  have white : (⟨255, 255, 255, 1⟩ : Rgba ℚ).InGamut := by
    constructor
    · constructor <;> norm_num
    · norm_num
  refine ⟨inside, (hsl_lossless.1 _ inside).1, (hsl_lossless.1 _ white).2.2.2.2.2, ?_⟩
  exact hsl_lossless.2 300 (by norm_num) (1 / 2) (by norm_num) (3 / 4) (by norm_num) 1 (by norm_num)

/-- Over exact numbers a color comes back from its hue, saturation and value, and away from the greys
the view comes back from the color. The sixth of the wheel is one of six before it is reduced, and only
the place in its turn matters of a hue. -/
theorem hsv_lossless :
    (∀ c : Rgba ℚ, c.Displayable → (Hsv.ofRgba c).toRgba = c) ∧
    (∀ h ∈ Set.Ico (0 : ℚ) 360, ∀ s ∈ Set.Ioc (0 : ℚ) 1, ∀ v ∈ Set.Ioc (0 : ℚ) 1, ∀ a : ℚ,
      Hsv.ofRgba (Hsv.toRgba ⟨h, s, v, a⟩) = ⟨h, s, v, a⟩) ∧
    (∀ h : ℚ, Scalar.toNat (Scalar.floor (Scalar.cyclic h 360 / 60)) < 6) ∧
    ∀ (h s v a : ℚ) (turns : ℤ),
      Hsv.toRgba ⟨h + 360 * turns, s, v, a⟩ = Hsv.toRgba ⟨h, s, v, a⟩ := by
  refine ⟨fun c shown => Hsv.toRgba_ofRgba shown, ?_, Hsv.sector_lt, Hsv.toRgba_add_turns⟩
  intro h hue s share v bright a
  exact Hsv.ofRgba_toRgba hue share.1 bright.1

/-- A color of which the alpha is no fraction, and a view at the boundary of two sixths. -/
theorem hsv_lossless_purple :
    (⟨120, 40, 200, 3⟩ : Rgba ℚ).Displayable ∧
      (Hsv.ofRgba (⟨120, 40, 200, 3⟩ : Rgba ℚ)).toRgba = ⟨120, 40, 200, 3⟩ ∧
      Hsv.ofRgba (Hsv.toRgba (⟨300, 1 / 2, 3 / 4, 1⟩ : Hsv ℚ)) = ⟨300, 1 / 2, 3 / 4, 1⟩ := by
  have shown : (⟨120, 40, 200, 3⟩ : Rgba ℚ).Displayable := by
    constructor <;> norm_num
  refine ⟨shown, hsv_lossless.1 _ shown, ?_⟩
  exact hsv_lossless.2.1 300 (by norm_num) (1 / 2) (by norm_num) (3 / 4) (by norm_num) 1

end StyleFunctions
