import StyleFunctions.Color.Adjustment
import StyleFunctions.Proofs.Color.Encoding

/-!
The views by hue, saturation and lightness that colors have. A view that is in range is read off its color
unless it names a hue or a saturation that no color can show: a grey has no hue, black and white have no
saturation either.
-/

namespace StyleFunctions

open scoped Exact

namespace Hsl

section Range

variable {K : Type} [Field K] [LinearOrder K]

structure InRange (v : Hsl K) : Prop where
  hue : v.hue ∈ Set.Ico 0 360
  saturation : v.saturation ∈ Set.Icc 0 1
  lightness : v.lightness ∈ Set.Icc 0 1
  alpha : v.alpha ∈ Set.Icc 0 1

/-- A view with a color to it. -/
def Colored (v : Hsl K) : Prop := 0 < v.saturation ∧ v.lightness ∈ Set.Ioo 0 1

def Grey (v : Hsl K) : Prop := v.saturation = 0 ∧ v.hue = 0

structure Canonical (v : Hsl K) : Prop extends InRange v where
  shown : v.Colored ∨ v.Grey

end Range

variable {K : Type} [Field K] [LinearOrder K] [FloorRing K] [IsStrictOrderedRing K]
  {v : Hsl K} {c : Rgba K} {h l a : K}

/-! ### Greys -/

/-- A view without saturation is decoded to the grey of its lightness, whatever its hue. -/
theorem toRgba_grey (h : K) (light : l ∈ Set.Icc (0 : K) 1) (alpha : a ∈ Set.Icc (0 : K) 1) :
    toRgba ⟨h, 0, l, a⟩ = ⟨l * 255, l * 255, l * 255, a⟩ := by
  have low : l * 2 - l = l := by ring
  rw [toRgba_eq]
  dsimp only
  rw [Exact.clampUnit_of_mem le_rfl zero_le_one, Exact.clampUnit_of_mem light.1 light.2,
    Exact.clampUnit_of_mem alpha.1 alpha.2, high, zero_mul, add_zero, low, wheelColor, wheel_flat]

theorem ofRgba_grey (l a : K) : ofRgba (⟨l * 255, l * 255, l * 255, a⟩ : Rgba K) = ⟨0, 0, l, a⟩ := by
  have channel : l * 255 / 255 = l := mul_div_cancel_right₀ l (by norm_num)
  have half : (l + l) / 2 = l := by ring
  rw [ofRgba_eq]
  simp only [ChannelSpan.ofRgba_eq, ChannelSpan.hue_eq, ChannelSpan.chroma_eq,
    ChannelSpan.ofFractions, channel, max_self, min_self, sub_self, zero_div, half, if_true]

/-! ### Views and colors -/

/-- A view that colors have is read off the color that it is decoded to. -/
theorem Canonical.ofRgba_toRgba (canonical : v.Canonical) : ofRgba v.toRgba = v := by
  obtain ⟨⟨hue, saturation, lightness, alpha⟩, shown⟩ := canonical
  rcases v with ⟨h, s, l, a⟩
  rcases shown with ⟨share, light⟩ | ⟨(rfl : s = 0), (rfl : h = 0)⟩
  · exact Hsl.ofRgba_toRgba hue ⟨share, saturation.2⟩ light alpha
  · have decoded := toRgba_grey 0 lightness alpha
    rw [decoded, ofRgba_grey]

theorem canonical_ofRgba (inside : c.InGamut) : (ofRgba c).Canonical := by
  obtain ⟨saturation, lightness, _, _⟩ := levels_ofRgba inside.toDisplayable
  refine ⟨⟨(ChannelSpan.wheelColor_hue c).1, saturation, lightness, inside.alpha⟩, ?_⟩
  by_cases grey : (ChannelSpan.ofRgba c).chroma = 0
  · right
    constructor
    · rw [ofRgba_eq]
      dsimp only
      rw [grey, zero_div]
    · change (ChannelSpan.ofRgba c).hue = 0
      rw [ChannelSpan.hue_eq, if_pos grey]
  · left
    obtain ⟨chroma, light, dark⟩ := divisors_pos inside.toDisplayable grey
    have value : (ofRgba c).lightness =
      ((ChannelSpan.ofRgba c).largest + (ChannelSpan.ofRgba c).smallest) / 2 := by rw [ofRgba_eq]
    have room : (ofRgba c).lightness ∈ Set.Ioo 0 1 := by
      rw [value]
      constructor <;> linarith
    refine ⟨?_, room⟩
    rw [ofRgba_eq] at room ⊢
    exact div_pos chroma (mul_pos two_pos (lt_min room.1 (sub_pos.mpr room.2)))

end Hsl

end StyleFunctions
