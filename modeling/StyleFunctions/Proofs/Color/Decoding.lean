import Mathlib.Data.Rat.Floor
import StyleFunctions.Proofs.Color.Wheel

/-!
Both cylindrical views of a color are decoded to a place of the wheel between two levels. Where they
mean the same levels they are decoded to the same color.
-/

namespace StyleFunctions

open scoped Exact
open Exact (literal literal_one)

variable {K : Type} [Field K] [LinearOrder K] [FloorRing K]

/-- The color at a place of the wheel. -/
def wheelColor (low high t alpha : K) : Rgba K :=
  ⟨(wheel low high t).1 * 255, (wheel low high t).2.1 * 255, (wheel low high t).2.2 * 255, alpha⟩

namespace Hsl

/-- The upper level of the channels for a saturation and a lightness. -/
def high (s l : K) : K := l + s * min l (1 - l)

theorem high_eq [IsStrictOrderedRing K] (s l : K) :
    (if l ≤ 1 / 2 then l * (s + 1) else l + s - l * s) = high s l := by
  unfold high
  split
  · rw [min_eq_left (by linarith)]
    ring
  · rw [min_eq_right (by linarith)]
    ring

theorem toRgba_eq [IsStrictOrderedRing K] (c : Hsl K) :
    c.toRgba =
      let s := Scalar.clampUnit c.saturation
      let l := Scalar.clampUnit c.lightness
      wheelColor (l * 2 - high s l) (high s l) (Scalar.cyclic c.hue 360 / 60)
        (Scalar.clampUnit c.alpha) := by
  have ahead (x : K) : x / 360 + 1 / 3 = (x / 60 + 2) / 6 := by ring
  have here (x : K) : x / 360 = x / 60 / 6 := by ring
  have behind (x : K) : x / 360 - 1 / 3 = (x / 60 - 2) / 6 := by ring
  simp only [toRgba, literal, literal_one, ahead, behind]
  simp only [here, wheelColor, wheel, ← high_eq]

end Hsl

variable [IsStrictOrderedRing K]

/-- The place on the wheel that a hue in degrees means. -/
theorem place_mem (hue : K) :
    0 ≤ Scalar.cyclic hue 360 / 60 ∧ Scalar.cyclic hue 360 / 60 < 6 := by
  have first := Exact.cyclic_nonneg (m := (360 : K)) (by norm_num) hue
  have last := Exact.cyclic_lt (m := (360 : K)) (by norm_num) hue
  constructor <;> linarith

namespace Hsv

/-- The sixth of the wheel in which a place stands. -/
theorem sector_eq {t : K} (first : 0 ≤ t) : Scalar.toNat (Scalar.floor t) = ⌊t⌋₊ := by
  change ⌊(⌊t⌋ : K)⌋₊ = ⌊t⌋₊
  rw [← natCast_floor_eq_intCast_floor first, Nat.floor_natCast]

theorem sector_lt (hue : K) :
    Scalar.toNat (Scalar.floor (Scalar.cyclic hue 360 / 60)) < 6 := by
  obtain ⟨first, last⟩ := place_mem hue
  rw [sector_eq first, Nat.floor_lt first]
  exact_mod_cast last

theorem toRgba_eq (c : Hsv K) :
    c.toRgba =
      wheelColor (c.value * (1 - c.saturation)) c.value (Scalar.cyclic c.hue 360 / 60) c.alpha := by
  obtain ⟨first, last⟩ := place_mem c.hue
  have below := sector_lt c.hue
  have floor : Scalar.floor (Scalar.cyclic c.hue 360 / 60) =
      (⌊Scalar.cyclic c.hue 360 / 60⌋₊ : K) :=
    (natCast_floor_eq_intCast_floor first).symm
  have falling (v s part : K) : v * (1 - part * s) = v - (v - v * (1 - s)) * part := by ring
  have rising (v s part : K) :
      v * (1 - (1 - part) * s) = v * (1 - s) + (v - v * (1 - s)) * part := by ring
  simp only [toRgba, literal, literal_one, Nat.mod_eq_of_lt below]
  rw [sector_eq first] at below ⊢
  rw [floor, falling, rising, wheelColor,
    wheel_eq_arrange below (Nat.floor_le first) (Nat.lt_floor_add_one _).le]

end Hsv

theorem wheelColor_add_turns (low high hue alpha : K) (turns : ℤ) :
    wheelColor low high (Scalar.cyclic (hue + 360 * turns) 360 / 60) alpha =
      wheelColor low high (Scalar.cyclic hue 360 / 60) alpha := by
  rw [Exact.cyclic_add_turns (by norm_num)]

theorem Hsl.toRgba_add_turns (hue s l a : K) (turns : ℤ) :
    Hsl.toRgba ⟨hue + 360 * turns, s, l, a⟩ = Hsl.toRgba ⟨hue, s, l, a⟩ := by
  simp only [Hsl.toRgba_eq, wheelColor_add_turns]

theorem Hsv.toRgba_add_turns (hue s v a : K) (turns : ℤ) :
    Hsv.toRgba ⟨hue + 360 * turns, s, v, a⟩ = Hsv.toRgba ⟨hue, s, v, a⟩ := by
  simp only [Hsv.toRgba_eq, wheelColor_add_turns]

/-- The value and saturation that mean the levels of a saturation and lightness. -/
theorem levels_eq {s l : K} (lower : 0 ≤ l) (share : 0 ≤ s) (upper : l ≤ 1) :
    Hsl.high s l * (1 - if Hsl.high s l = 0 then 0 else 2 * (1 - l / Hsl.high s l)) =
      l * 2 - Hsl.high s l := by
  split
  · rename_i dark
    rw [Hsl.high] at dark
    have rest : 0 ≤ s * min l (1 - l) := mul_nonneg share (le_min lower (by linarith))
    rw [Hsl.high]
    linarith
  · field_simp
    ring

/-- A color by hue, saturation and lightness is decoded as the color by hue, saturation and value with
the same levels is, whatever the hue; and whole turns of the hue change neither. -/
theorem decoders_agree :
    (∀ h : ℚ, ∀ s ∈ Set.Icc (0 : ℚ) 1, ∀ l ∈ Set.Icc (0 : ℚ) 1, ∀ a ∈ Set.Icc (0 : ℚ) 1,
      let v := l + s * min l (1 - l)
      let s' := if v = 0 then 0 else 2 * (1 - l / v)
      Hsl.toRgba ⟨h, s, l, a⟩ = Hsv.toRgba ⟨h, s', v, a⟩) ∧
    ∀ (h s x a : ℚ) (turns : ℤ),
      Hsl.toRgba ⟨h + 360 * turns, s, x, a⟩ = Hsl.toRgba ⟨h, s, x, a⟩ ∧
      Hsv.toRgba ⟨h + 360 * turns, s, x, a⟩ = Hsv.toRgba ⟨h, s, x, a⟩ := by
  constructor
  · intro h s share l light a alpha v s'
    have levels := levels_eq light.1 share.1 light.2
    rw [Hsl.high] at levels
    rw [Hsl.toRgba_eq, Hsv.toRgba_eq]
    simp only [Exact.clampUnit_of_mem share.1 share.2, Exact.clampUnit_of_mem light.1 light.2,
      Exact.clampUnit_of_mem alpha.1 alpha.2, Hsl.high]
    rw [levels]
  · intro h s x a turns
    exact ⟨Hsl.toRgba_add_turns h s x a turns, Hsv.toRgba_add_turns h s x a turns⟩

/-- A hue below zero, on a color that is more light than dark. -/
theorem decoders_agree_below_zero :
    (1 / 2 : ℚ) ∈ Set.Icc 0 1 ∧ (3 / 4 : ℚ) ∈ Set.Icc 0 1 ∧
      Hsl.toRgba (⟨-400, 1 / 2, 3 / 4, 1⟩ : Hsl ℚ) = Hsv.toRgba ⟨-400, 2 / 7, 7 / 8, 1⟩ := by
  have share : (1 / 2 : ℚ) ∈ Set.Icc 0 1 := by norm_num
  have light : (3 / 4 : ℚ) ∈ Set.Icc 0 1 := by norm_num
  have value : (3 / 4 : ℚ) + 1 / 2 * min (3 / 4) (1 - 3 / 4) = 7 / 8 := by norm_num
  have saturation : 2 * (1 - (3 / 4 : ℚ) / (7 / 8)) = 2 / 7 := by norm_num
  have agree := decoders_agree.1 (-400) (1 / 2) share (3 / 4) light 1 (by norm_num)
  dsimp only at agree
  rw [value, if_neg (by norm_num), saturation] at agree
  exact ⟨share, light, agree⟩

end StyleFunctions
