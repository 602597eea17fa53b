import StyleFunctions.Color.Luma
import StyleFunctions.Proofs.Color.Encoding
import StyleFunctions.Proofs.Scalar.Real

/-!
Brightness over the real numbers. The two pieces of a linearized channel both rise, but they do not
meet: where the power takes over it starts below the end of the linear piece, by less than one part
in a million. Only a channel that is raised from just below this joint to just above it makes a
color darker.
-/

namespace StyleFunctions

open scoped Exact
open Exact (literal literal_fraction)

section

variable {x y q : ℝ}

/-- The linear piece, of the share that a channel has of `255`. -/
noncomputable def linearPart (share : ℝ) : ℝ := share * (25 / 323)

/-- The power that follows it. -/
noncomputable def powerPart (share : ℝ) : ℝ := ((share + 11 / 200) / (211 / 200)) ^ (24 / 10 : ℝ)

/-- The channel at which the linear piece ends. -/
noncomputable def joint : ℝ := 25041 / 2500

theorem linearChannel_eq (x : ℝ) :
    linearChannel x = if x ≤ joint then linearPart (x / 255) else powerPart (x / 255) := by
  have threshold : x / 255 ≤ 3928 / 10 ^ 5 ↔ x ≤ joint := by
    unfold joint
    constructor <;> intro le <;> linarith
  have divisor : x / 255 / (1292 / 10 ^ 2) = linearPart (x / 255) := by
    unfold linearPart
    ring
  have base : (x / 255 + 55 / 10 ^ 3) / (1055 / 10 ^ 3) = (x / 255 + 11 / 200) / (211 / 200) := by
    norm_num
  have power (z : ℝ) : Elementary.pow z (24 / 10 ^ 1 : ℝ) = z ^ (24 / 10 : ℝ) := by
    have exponent : (24 / 10 ^ 1 : ℝ) = 24 / 10 := by norm_num
    rw [exponent]
    rfl
  simp only [linearChannel, literal, literal_fraction, Nat.cast_ofNat, threshold, divisor, base,
    power]
  rfl

theorem linearPart_le_iff : linearPart (x / 255) ≤ linearPart (y / 255) ↔ x ≤ y := by
  unfold linearPart
  constructor <;> intro le <;> linarith

theorem le_power_iff (nonneg : 0 ≤ x) (lower : 0 ≤ q) : q ≤ x ^ (24 / 10 : ℝ) ↔ q ^ 5 ≤ x ^ 12 := by
  have fifth : (x ^ (24 / 10 : ℝ)) ^ 5 = x ^ 12 := by
    rw [← Real.rpow_natCast, ← Real.rpow_mul nonneg, ← Real.rpow_natCast]
    norm_num
  rw [← fifth, pow_le_pow_iff_left₀ lower (Real.rpow_nonneg nonneg _) (by norm_num)]

theorem le_powerPart_iff (nonneg : 0 ≤ x) (lower : 0 ≤ q) :
    q ≤ powerPart (x / 255) ↔ q ^ 5 ≤ ((x / 255 + 11 / 200) / (211 / 200)) ^ 12 :=
  le_power_iff (by linarith) lower

theorem powerPart_mono (nonneg : 0 ≤ x) (le : x ≤ y) :
    powerPart (x / 255) ≤ powerPart (y / 255) := by
  unfold powerPart
  apply Real.rpow_le_rpow <;> linarith

/-! ### The joint -/

/-- The power starts below the end of the linear piece, but not far. -/
theorem powerPart_joint : linearPart (joint / 255) - 756 / 10 ^ 9 ≤ powerPart (joint / 255) := by
  unfold linearPart joint
  rw [le_powerPart_iff] <;> norm_num

theorem linearPart_le_powerPart_joint :
    linearPart (100139 / 10000 / 255) ≤ powerPart (joint / 255) := by
  unfold linearPart joint
  rw [le_powerPart_iff] <;> norm_num

theorem linearPart_joint_le_powerPart :
    linearPart (joint / 255) ≤ powerPart (100189 / 10000 / 255) := by
  unfold linearPart joint
  rw [le_powerPart_iff] <;> norm_num

/-- A channel that is raised is less bright afterwards only across the joint. -/
theorem linearChannel_lt_iff (nonneg : 0 ≤ x) (le : x ≤ y) :
    linearChannel y < linearChannel x ↔
      x ≤ joint ∧ joint < y ∧ powerPart (y / 255) < linearPart (x / 255) := by
  rw [linearChannel_eq, linearChannel_eq]
  by_cases low : x ≤ joint
  · by_cases short : y ≤ joint
    · rw [if_pos low, if_pos short, ← not_le, linearPart_le_iff]
      exact iff_of_false (not_not_intro le) fun fall => absurd fall.2.1 (not_lt.mpr short)
    · rw [if_pos low, if_neg short]
      exact ⟨fun fall => ⟨low, not_le.mp short, fall⟩, fun fall => fall.2.2⟩
  · have high : ¬ y ≤ joint := fun below => low (le.trans below)
    rw [if_neg low, if_neg high, ← not_le]
    exact iff_of_false (not_not_intro (powerPart_mono nonneg le)) fun fall => low fall.1

/-- How near to the joint a channel is that falls, and how far it falls. -/
theorem near_joint_of_lt (nonneg : 0 ≤ x) (le : x ≤ y) (fall : linearChannel y < linearChannel x) :
    100139 / 10000 < x ∧ y < 100189 / 10000 ∧ linearChannel x - linearChannel y ≤ 756 / 10 ^ 9 := by
  obtain ⟨low, high, less⟩ := (linearChannel_lt_iff nonneg le).mp fall
  have jointNonneg : 0 ≤ joint := by
    unfold joint
    norm_num
  have start : powerPart (joint / 255) ≤ powerPart (y / 255) := powerPart_mono jointNonneg high.le
  have last : linearPart (x / 255) ≤ linearPart (joint / 255) := linearPart_le_iff.mpr low
  refine ⟨?_, ?_, ?_⟩
  · rw [← not_le, ← linearPart_le_iff (y := 100139 / 10000), not_le]
    exact linearPart_le_powerPart_joint.trans_lt (start.trans_lt less)
  · rw [← not_le]
    intro beyond
    have risen := powerPart_mono (by norm_num) beyond
    exact absurd less (not_lt.mpr (last.trans (linearPart_joint_le_powerPart.trans risen)))
  · rw [linearChannel_eq, linearChannel_eq, if_pos low, if_neg (not_le.mpr high)]
    linarith [powerPart_joint]

theorem linearChannel_mem (shown : x ∈ Set.Icc (0 : ℝ) 255) :
    linearChannel x ∈ Set.Icc (0 : ℝ) 1 := by
  obtain ⟨nonneg, most⟩ := shown
  rw [linearChannel_eq]
  split
  · unfold linearPart
    constructor <;> linarith
  · have full : powerPart (255 / 255) = 1 := by
      unfold powerPart
      norm_num
    refine ⟨Real.rpow_nonneg (by linarith) _, ?_⟩
    rw [← full]
    exact powerPart_mono nonneg most

end

/-! ### The luma -/

/-- The channels that a color is mixed from. -/
inductive Primary where
  | red
  | green
  | blue
  deriving DecidableEq, Repr

namespace Primary

section

variable {K : Type}

def read : Primary → Rgba K → K
  | .red, c => c.red
  | .green, c => c.green
  | .blue, c => c.blue

def set : Primary → Rgba K → K → Rgba K
  | .red, c, x => { c with red := x }
  | .green, c, x => { c with green := x }
  | .blue, c, x => { c with blue := x }

/-- The share of a channel in the luma. -/
def weight : Primary → ℚ
  | .red => 1063 / 5000
  | .green => 447 / 625
  | .blue => 361 / 5000

end

theorem read_nonneg {c : Rgba ℝ} (p : Primary) (shown : c.Displayable) : 0 ≤ p.read c := by
  cases p with
  | red => exact shown.red.1
  | green => exact shown.green.1
  | blue => exact shown.blue.1

theorem weight_mem (p : Primary) : (p.weight : ℝ) ∈ Set.Ioc (0 : ℝ) (447 / 625) := by
  cases p <;> norm_num [weight]

end Primary

namespace Rgba

variable {c : Rgba ℝ} {x : ℝ}

theorem luma_eq (c : Rgba ℝ) :
    c.luma = 1063 / 5000 * linearChannel c.red + 447 / 625 * linearChannel c.green +
      361 / 5000 * linearChannel c.blue := by
  have red : (2126 / 10 ^ 4 : ℝ) = 1063 / 5000 := by norm_num
  have green : (7152 / 10 ^ 4 : ℝ) = 447 / 625 := by norm_num
  have blue : (722 / 10 ^ 4 : ℝ) = 361 / 5000 := by norm_num
  simp only [luma, literal_fraction, Nat.cast_ofNat, red, green, blue]

theorem luma_mem (shown : c.Displayable) : c.luma ∈ Set.Icc (0 : ℝ) 1 := by
  obtain ⟨red, red'⟩ := linearChannel_mem shown.red
  obtain ⟨green, green'⟩ := linearChannel_mem shown.green
  obtain ⟨blue, blue'⟩ := linearChannel_mem shown.blue
  rw [luma_eq]
  constructor <;> linarith

/-- A change of one channel changes the luma by its share of the change of the linearized channel.
-/
theorem luma_set (p : Primary) (c : Rgba ℝ) (x : ℝ) :
    (p.set c x).luma = c.luma - p.weight * (linearChannel (p.read c) - linearChannel x) := by
  cases p <;> simp only [Primary.set, Primary.read, Primary.weight, luma_eq] <;> push_cast <;> ring

theorem luma_set_lt_iff (p : Primary) (c : Rgba ℝ) (x : ℝ) :
    (p.set c x).luma < c.luma ↔ linearChannel x < linearChannel (p.read c) := by
  rw [luma_set, sub_lt_self_iff, mul_pos_iff_of_pos_left p.weight_mem.1, sub_pos]

section

variable (p : Primary) (nonneg : 0 ≤ p.read c) (le : p.read c ≤ x)

include nonneg le

/-- A color that is raised in one channel gets darker only next to the joint, and by less than one
part in a million. -/
theorem luma_loss (fall : (p.set c x).luma < c.luma) :
    100139 / 10000 < p.read c ∧ x < 100189 / 10000 ∧ c.luma - (p.set c x).luma < 6 / 10 ^ 7 := by
  have less := (luma_set_lt_iff p c x).mp fall
  obtain ⟨after, before, loss⟩ := near_joint_of_lt nonneg le less
  obtain ⟨pos, most⟩ := p.weight_mem
  refine ⟨after, before, ?_⟩
  rw [luma_set, sub_sub_cancel]
  calc
    (p.weight : ℝ) * (linearChannel (p.read c) - linearChannel x) ≤ 447 / 625 * (756 / 10 ^ 9) :=
      mul_le_mul most loss (sub_nonneg.mpr less.le) (by norm_num)
    _ < 6 / 10 ^ 7 := by norm_num

/-- No whole number stands next to the joint. -/
theorem luma_le_of_whole {n : ℕ} (whole : p.read c = n ∨ x = n) : c.luma ≤ (p.set c x).luma := by
  rw [← not_lt]
  intro fall
  obtain ⟨after, before, _⟩ := luma_loss p nonneg le fall
  have inside : (10 : ℝ) < n ∧ (n : ℝ) < 11 := by
    rcases whole with same | same <;> constructor <;> linarith
  have above : 10 < n := by exact_mod_cast inside.1
  have below : n < 11 := by exact_mod_cast inside.2
  omega

end

end Rgba

end StyleFunctions
