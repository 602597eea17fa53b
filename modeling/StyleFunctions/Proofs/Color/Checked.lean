import StyleFunctions.Color.Hsl
import StyleFunctions.Proofs.Scalar.Checked

/-!
The conversions between the channels of a color and its hue, saturation and lightness on numbers that fail
when they are divided by zero. Where the divisors of the saturation do not vanish for a color with chroma,
the conversions come to the same as on numbers that do not fail: a grey never gets as far as a division by
its chroma.
-/

namespace StyleFunctions

open scoped Exact Checked
open Checked (value value_add value_sub value_mul value_div value_lt value_le ite_value)

variable {K : Type} [Field K] [LinearOrder K]

/-- A color for a computation that watches its divisors. -/
def Rgba.checked (c : Rgba K) : Rgba (Checked K) :=
  ⟨value c.red, value c.green, value c.blue, value c.alpha⟩

def Hsl.checked (c : Hsl K) : Hsl (Checked K) :=
  ⟨value c.hue, value c.saturation, value c.lightness, value c.alpha⟩

def ChannelSpan.checked (e : ChannelSpan K) : ChannelSpan (Checked K) :=
  ⟨value e.red, value e.green, value e.blue, value e.largest, value e.smallest⟩

variable [FloorRing K]

/-- The constants by which colors are divided. -/
theorem Exact.literal_ne_zero (n : ℕ) [n.AtLeastTwo] :
    (@OfNat.ofNat K n (Scalar.instOfNat n) : K) ≠ 0 := by
  rw [literal]
  exact OfNat.ofNat_ne_zero n

namespace ChannelSpan

theorem ofRgba_checked (c : Rgba K) : ofRgba c.checked = (ofRgba c).checked := by
  simp only [ofRgba, Rgba.checked, Checked.literal, value_div (Exact.literal_ne_zero 255),
    Checked.larger_value, Checked.smaller_value]
  rfl

theorem sector_checked {e : ChannelSpan K} (colored : e.chroma ≠ 0) :
    e.checked.sector = value e.sector := by
  have share (x : K) : value x / e.checked.chroma = value (x / e.chroma) := value_div colored
  refine ite_value Iff.rfl (fun _ => ?red) fun _ => ite_value Iff.rfl (fun _ => ?green) fun _ => ?blue
  case red =>
    exact congrArg₂ (· + ·) (share (e.green - e.blue)) (ite_value value_lt (fun _ => rfl) fun _ => rfl)
  case green => exact congrArg (· + _) (share (e.blue - e.red))
  case blue => exact congrArg (· + _) (share (e.red - e.green))

theorem hue_checked (e : ChannelSpan K) : e.checked.hue = value e.hue := by
  refine ite_value Iff.rfl (fun _ => rfl) fun colored => ?_
  have chroma : e.chroma ≠ 0 := mt Checked.value_beq_zero.mpr colored
  exact congrArg (· * _) (sector_checked chroma)

end ChannelSpan

namespace Hsl

theorem ofRgba_checked (c : Rgba K)
    (divisors : (ChannelSpan.ofRgba c).chroma ≠ 0 →
      2 - (ChannelSpan.ofRgba c).largest - (ChannelSpan.ofRgba c).smallest ≠ 0 ∧
        (ChannelSpan.ofRgba c).largest + (ChannelSpan.ofRgba c).smallest ≠ 0) :
    ofRgba c.checked = (ofRgba c).checked := by
  rw [ofRgba, ofRgba, ChannelSpan.ofRgba_checked]
  revert divisors
  generalize ChannelSpan.ofRgba c = e
  intro divisors
  have half (x : K) : value x / 2 = value (x / @OfNat.ofNat K 2 (Scalar.instOfNat 2)) :=
    value_div (Exact.literal_ne_zero 2)
  have lightness := half (e.largest + e.smallest)
  have middle : 1 / 2 =
      value (@OfNat.ofNat K 1 (Scalar.instOfNat 1) / @OfNat.ofNat K 2 (Scalar.instOfNat 2)) :=
    half _
  rw [checked, Hsl.mk.injEq]
  refine ⟨e.hue_checked, ?share, lightness, rfl⟩
  refine ite_value Iff.rfl (fun _ => rfl) fun colored => ite_value ?brighter (fun _ => ?light) fun _ => ?dark
  case brighter =>
    change 1 / 2 < value (e.largest + e.smallest) / 2 ↔ _
    rw [middle, lightness]
    exact value_lt
  case light =>
    have divisor := (divisors (mt Checked.value_beq_zero.mpr colored)).1
    rw [← Exact.literal 2] at divisor
    exact value_div divisor
  case dark => exact value_div (divisors (mt Checked.value_beq_zero.mpr colored)).2

theorem ramp_checked (low high x : K) :
    ramp (value low) (value high) (value x) = value (ramp low high x) := by
  simp only [ramp, Checked.literal, value_lt, value_add, value_sub, value_mul,
    value_div (Exact.literal_ne_zero 3), ← apply_ite value]

/-- Back to channels all divisors are constants. -/
theorem toRgba_checked (c : Hsl K) : c.checked.toRgba = c.toRgba.checked := by
  simp only [toRgba, checked, Checked.literal, Checked.cyclic_value (Exact.literal_ne_zero 360),
    Checked.clampUnit_value, value_div (Exact.literal_ne_zero 360), value_div (Exact.literal_ne_zero 2),
    value_div (Exact.literal_ne_zero 3), value_le, value_add, value_sub, value_mul, ← apply_ite value,
    ramp_checked]
  rfl

end Hsl

end StyleFunctions
