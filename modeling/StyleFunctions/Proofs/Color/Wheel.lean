import Mathlib.Tactic.IntervalCases
import StyleFunctions.Color.Hsl
import StyleFunctions.Color.Hsv
import StyleFunctions.Proofs.Scalar.Exact

/-!
The color wheel: the channels between two levels as functions of a place, counted in sixths of a turn
from red. The three phases of the ramp and the six arrangements of levels describe the same wheel.
-/

namespace StyleFunctions

open scoped Exact
open Exact (literal literal_zero literal_one)

variable {K : Type} [Field K] [LinearOrder K] [FloorRing K] {low high t : K}

namespace Hsl

/-- The four pieces of the ramp, over places inside one turn. -/
def phase (low high x : K) : K :=
  if x * 6 < 1 then low + (high - low) * x * 6
  else if x * 2 < 1 then high
  else if x * 3 < 2 then low + (high - low) * (2 / 3 - x) * 6
  else low

theorem ramp_eq (low high x : K) :
    ramp low high x = phase low high (if x < 0 then x + 1 else if 1 < x then x - 1 else x) := by
  simp only [ramp, literal, literal_zero, literal_one]
  rfl

omit [FloorRing K] in
theorem phase_flat (level x : K) : phase level level x = level := by
  simp only [phase, sub_self, zero_mul, add_zero, ite_self]

theorem ramp_of_mem {x : K} (lower : 0 ≤ x) (upper : x ≤ 1) :
    ramp low high x = phase low high x := by
  rw [ramp_eq, if_neg (not_lt.mpr lower), if_neg (not_lt.mpr upper)]

variable [IsStrictOrderedRing K]

/-! Each piece holds at both of its ends, where it meets the next one. -/

theorem ramp_rising (first : 0 ≤ t) (last : t ≤ 1) :
    ramp low high (t / 6) = low + (high - low) * t := by
  rw [ramp_of_mem (by linarith) (by linarith), phase]
  split
  · ring
  · have top : t = 1 := by linarith
    rw [if_pos (by linarith), top]
    ring

theorem ramp_top (first : 1 ≤ t) (last : t ≤ 3) : ramp low high (t / 6) = high := by
  rw [ramp_of_mem (by linarith) (by linarith), phase, if_neg (by linarith)]
  split
  · rfl
  · have edge : t = 3 := by linarith
    rw [if_pos (by linarith), edge]
    ring

theorem ramp_falling (first : 3 ≤ t) (last : t ≤ 4) :
    ramp low high (t / 6) = high - (high - low) * (t - 3) := by
  rw [ramp_of_mem (by linarith) (by linarith), phase, if_neg (by linarith), if_neg (by linarith)]
  split
  · ring
  · have bottom : t = 4 := by linarith
    rw [bottom]
    ring

theorem ramp_bottom (first : 4 ≤ t) (last : t ≤ 6) : ramp low high (t / 6) = low := by
  rw [ramp_of_mem (by linarith) (by linarith), phase, if_neg (by linarith), if_neg (by linarith),
    if_neg (by linarith)]

theorem ramp_above (first : 6 ≤ t) (last : t ≤ 12) :
    ramp low high (t / 6) = ramp low high ((t - 6) / 6) := by
  by_cases edge : t = 6
  · -- The end of the turn is not moved to its beginning, but both are low.
    rw [edge, ramp_bottom (by linarith) le_rfl, sub_self, ramp_rising le_rfl zero_le_one, mul_zero,
      add_zero]
  · have above : 6 < t := lt_of_le_of_ne first (Ne.symm edge)
    have turned : t / 6 - 1 = (t - 6) / 6 := by ring
    rw [ramp_eq, if_neg (by linarith), if_pos (by linarith), turned,
      ramp_of_mem (by linarith) (by linarith)]

theorem ramp_below (first : -6 ≤ t) (last : t ≤ 0) :
    ramp low high (t / 6) = ramp low high ((t + 6) / 6) := by
  by_cases edge : t = 0
  · rw [edge, zero_add, ramp_rising le_rfl zero_le_one, ramp_bottom (by linarith) le_rfl, mul_zero,
      add_zero]
  · have below : t < 0 := lt_of_le_of_ne last edge
    have turned : t / 6 + 1 = (t + 6) / 6 := by ring
    rw [ramp_eq, if_pos (by linarith), turned, ramp_of_mem (by linarith) (by linarith)]

end Hsl

/-- Red, green and blue between two levels at a place of the wheel. -/
def wheel (low high t : K) : K × K × K :=
  (Hsl.ramp low high ((t + 2) / 6), Hsl.ramp low high (t / 6), Hsl.ramp low high ((t - 2) / 6))

theorem wheel_eq {r g b : K} (red : Hsl.ramp low high ((t + 2) / 6) = r)
    (green : Hsl.ramp low high (t / 6) = g) (blue : Hsl.ramp low high ((t - 2) / 6) = b) :
    wheel low high t = (r, g, b) := by
  rw [wheel, red, green, blue]

/-- Between two equal levels every place is the same. -/
theorem wheel_flat (level t : K) : wheel level level t = (level, level, level) := by
  simp only [wheel, Hsl.ramp_eq, Hsl.phase_flat]

variable [IsStrictOrderedRing K]

/-- In each sixth of the wheel one channel is high, one low, and the third falls or rises. -/
theorem wheel_eq_arrange {sector : ℕ} (below : sector < 6) (first : sector ≤ t)
    (last : t ≤ sector + 1) :
    wheel low high t =
      Hsv.arrange sector high low (high - (high - low) * (t - sector))
        (low + (high - low) * (t - sector)) := by
  interval_cases sector <;> push_cast at first last ⊢ <;> apply wheel_eq
  -- From red to yellow.
  · exact Hsl.ramp_top (by linarith) (by linarith)
  · rw [Hsl.ramp_rising (by linarith) (by linarith), sub_zero]
  · rw [Hsl.ramp_below (by linarith) (by linarith), Hsl.ramp_bottom (by linarith) (by linarith)]
  -- From yellow to green.
  · rw [Hsl.ramp_falling (by linarith) (by linarith)]
    ring
  · exact Hsl.ramp_top (by linarith) (by linarith)
  · rw [Hsl.ramp_below (by linarith) (by linarith), Hsl.ramp_bottom (by linarith) (by linarith)]
  -- From green to cyan.
  · exact Hsl.ramp_bottom (by linarith) (by linarith)
  · exact Hsl.ramp_top (by linarith) (by linarith)
  · exact Hsl.ramp_rising (by linarith) (by linarith)
  -- From cyan to blue.
  · exact Hsl.ramp_bottom (by linarith) (by linarith)
  · exact Hsl.ramp_falling (by linarith) (by linarith)
  · exact Hsl.ramp_top (by linarith) (by linarith)
  -- From blue to magenta.
  · rw [Hsl.ramp_above (by linarith) (by linarith), Hsl.ramp_rising (by linarith) (by linarith)]
    ring
  · exact Hsl.ramp_bottom (by linarith) (by linarith)
  · exact Hsl.ramp_top (by linarith) (by linarith)
  -- From magenta to red.
  · rw [Hsl.ramp_above (by linarith) (by linarith)]
    exact Hsl.ramp_top (by linarith) (by linarith)
  · exact Hsl.ramp_bottom (by linarith) (by linarith)
  · rw [Hsl.ramp_falling (by linarith) (by linarith)]
    ring

end StyleFunctions
