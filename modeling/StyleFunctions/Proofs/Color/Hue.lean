import StyleFunctions.Proofs.Color.Wheel

/-!
The hue of a color is its place on the wheel: a color that is no grey stands on the wheel between its
extreme channels, at the place that its hue tells, and at no other.
-/

namespace StyleFunctions

open scoped Exact
open Exact (literal literal_zero)

namespace ChannelSpan

section Extremes

variable {K : Type} [LinearOrder K] {low high r g b : K}

/-- The span of three channels given as fractions. -/
def ofFractions (r g b : K) : ChannelSpan K := ⟨r, g, b, max (max r g) b, min (min r g) b⟩

theorem ofFractions_extremes (red : r ∈ Set.Icc low high) (green : g ∈ Set.Icc low high)
    (blue : b ∈ Set.Icc low high) (top : high = r ∨ high = g ∨ high = b)
    (bottom : low = r ∨ low = g ∨ low = b) :
    (ofFractions r g b).largest = high ∧ (ofFractions r g b).smallest = low := by
  constructor
  · apply le_antisymm (max_le (max_le red.2 green.2) blue.2)
    rcases top with rfl | rfl | rfl <;> simp
  · apply le_antisymm _ (le_min (le_min red.1 green.1) blue.1)
    rcases bottom with rfl | rfl | rfl <;> simp

/-- In every arrangement the value is the largest channel and the low level the smallest. -/
theorem extremes_arrange {sector : ℕ} {falling rising : K} (below : sector < 6) (less : low ≤ high)
    (down : falling ∈ Set.Icc low high) (up : rising ∈ Set.Icc low high)
    (same : Hsv.arrange sector high low falling rising = (r, g, b)) :
    (ofFractions r g b).largest = high ∧ (ofFractions r g b).smallest = low := by
  have lowMem : low ∈ Set.Icc low high := ⟨le_rfl, less⟩
  have highMem : high ∈ Set.Icc low high := ⟨less, le_rfl⟩
  interval_cases sector <;> simp only [Hsv.arrange, Prod.mk.injEq] at same <;>
    obtain ⟨rfl, rfl, rfl⟩ := same <;> apply ofFractions_extremes <;> first | assumption | simp

theorem smallest_le_largest : (ofFractions r g b).smallest ≤ (ofFractions r g b).largest :=
  le_trans (min_le_right _ b) (le_max_right _ b)

end Extremes

section Arrangement

variable {K : Type} [Field K] [LinearOrder K] [IsStrictOrderedRing K] {low high x r g b : K}

/-- A number between two levels is a part of the way up, as it is a part of the way down. -/
theorem exists_rising (less : low < high) (first : low ≤ x) (last : x < high) :
    ∃ part, 0 ≤ part ∧ part < 1 ∧ low + (high - low) * part = x := by
  have pos : 0 < high - low := sub_pos.mpr less
  refine ⟨(x - low) / (high - low), div_nonneg (by linarith) pos.le, ?_, ?_⟩
  · rw [div_lt_one pos]
    linarith
  · rw [mul_div_cancel₀ _ pos.ne']
    ring

theorem exists_falling (less : low < high) (first : low < x) (last : x ≤ high) :
    ∃ part, 0 ≤ part ∧ part < 1 ∧ high - (high - low) * part = x := by
  obtain ⟨part, nonneg, short, same⟩ :=
    exists_rising (neg_lt_neg less) (neg_le_neg last) (neg_lt_neg first)
  exact ⟨part, nonneg, short, by linarith⟩

/-- Channels that are not all equal are in one of the six arrangements. -/
theorem exists_arrange (less : (ofFractions r g b).smallest < (ofFractions r g b).largest) :
    ∃ low high part, ∃ sector < 6, low < high ∧ 0 ≤ part ∧ part < 1 ∧
      Hsv.arrange sector high low (high - (high - low) * part) (low + (high - low) * part) =
        (r, g, b) := by
  rcases lt_or_ge g r with greenLess | redLe
  · rcases le_or_gt b g with blueLe | greenLess'
    · obtain ⟨part, first, last, same⟩ := exists_rising (by linarith) blueLe greenLess
      exact ⟨b, r, part, 0, by norm_num, by linarith, first, last, by simp only [Hsv.arrange, same]⟩
    · rcases le_or_gt b r with blueLe | redLess
      · obtain ⟨part, first, last, same⟩ := exists_falling (by linarith) greenLess' blueLe
        exact ⟨g, r, part, 5, by norm_num, by linarith, first, last, by simp only [Hsv.arrange, same]⟩
      · obtain ⟨part, first, last, same⟩ := exists_rising (by linarith) greenLess.le redLess
        exact ⟨g, b, part, 4, by norm_num, by linarith, first, last, by simp only [Hsv.arrange, same]⟩
  · rcases lt_or_ge b r with blueLess | redLe'
    · obtain ⟨part, first, last, same⟩ := exists_falling (by linarith) blueLess redLe
      exact ⟨b, g, part, 1, by norm_num, by linarith, first, last, by simp only [Hsv.arrange, same]⟩
    · rcases lt_or_ge b g with blueLess | greenLe
      · obtain ⟨part, first, last, same⟩ := exists_rising (by linarith) redLe' blueLess
        exact ⟨r, g, part, 2, by norm_num, by linarith, first, last, by simp only [Hsv.arrange, same]⟩
      · rcases eq_or_lt_of_le redLe with rfl | redLess
        · have redLess : r < b := by
            apply lt_of_le_of_ne redLe'
            rintro rfl
            simp [ofFractions] at less
          obtain ⟨part, first, last, same⟩ := exists_rising redLess le_rfl redLess
          exact ⟨r, b, part, 4, by norm_num, redLess, first, last, by simp only [Hsv.arrange, same]⟩
        · obtain ⟨part, first, last, same⟩ := exists_falling (by linarith) redLess greenLe
          exact ⟨r, b, part, 3, by norm_num, by linarith, first, last,
            by simp only [Hsv.arrange, same]⟩

end Arrangement

variable {K : Type} [Field K] [LinearOrder K] [FloorRing K] {low high part t r g b : K}

theorem ofRgba_eq (c : Rgba K) :
    ofRgba c = ofFractions (c.red / 255) (c.green / 255) (c.blue / 255) := by
  simp only [ofRgba, Exact.larger_eq, Exact.smaller_eq, literal]
  rfl

theorem chroma_eq (e : ChannelSpan K) : e.chroma = e.largest - e.smallest := rfl

theorem sector_of_extremes (largest : (ofFractions r g b).largest = high)
    (smallest : (ofFractions r g b).smallest = low) :
    (ofFractions r g b).sector =
      if high = r then (g - b) / (high - low) + (if g < b then 6 else 0)
      else if high = g then (b - r) / (high - low) + 2
      else (r - g) / (high - low) + 4 := by
  simp only [sector, chroma, beq_iff_eq, literal, literal_zero, largest, smallest]
  rfl

theorem hue_eq (e : ChannelSpan K) : e.hue = if e.chroma = 0 then 0 else e.sector * 60 := by
  simp only [hue, beq_iff_eq, literal, literal_zero]

variable [IsStrictOrderedRing K]

/-- An arrangement shows its levels as extremes and its place as sector. -/
theorem ofFractions_arrange {sector : ℕ} (below : sector < 6) (less : low < high)
    (first : 0 ≤ part) (last : part < 1)
    (same : Hsv.arrange sector high low (high - (high - low) * part) (low + (high - low) * part) =
      (r, g, b)) :
    (ofFractions r g b).largest = high ∧ (ofFractions r g b).smallest = low ∧
      (ofFractions r g b).sector = sector + part := by
  have pos : 0 < high - low := sub_pos.mpr less
  have nonneg : 0 ≤ (high - low) * part := mul_nonneg pos.le first
  have short : (high - low) * part < high - low := mul_lt_of_lt_one_right pos last
  obtain ⟨largest, smallest⟩ := extremes_arrange below less.le ⟨by linarith, by linarith⟩
    ⟨by linarith, by linarith⟩ same
  refine ⟨largest, smallest, ?_⟩
  rw [sector_of_extremes largest smallest]
  have whole : (high - low) / (high - low) = 1 := div_self pos.ne'
  have risen : (low + (high - low) * part - low) / (high - low) = part := by
    rw [add_sub_cancel_left, mul_div_cancel_left₀ _ pos.ne']
  have fallen : (low - (high - (high - low) * part)) / (high - low) = part - 1 := by
    field_simp
    ring
  -- A falling channel that has not left the top yet is taken for the largest one.
  have start : high = high - (high - low) * part → part = 0 := by
    intro still
    have gone : (high - low) * part = 0 := by linarith
    exact (mul_eq_zero.mp gone).resolve_left pos.ne'
  clear largest smallest
  interval_cases sector <;> simp only [Hsv.arrange, Prod.mk.injEq] at same <;>
    obtain ⟨rfl, rfl, rfl⟩ := same <;> push_cast
  · rw [if_pos rfl, if_neg (by linarith), risen]
    ring
  · rw [if_pos rfl, whole, if_neg (not_lt.mpr less.le), fallen]
    split
    · rename_i still
      rw [start still]
    · ring
  · rw [if_neg less.ne', if_pos rfl, risen]
    ring
  · rw [if_neg less.ne', whole, fallen]
    split
    · rename_i still
      rw [start still]
      ring
    · ring
  · rw [if_neg (by linarith), if_neg less.ne', risen]
    ring
  · rw [if_pos rfl, if_pos (by linarith), fallen]
    ring

/-- A place between two different levels can be read off the color that stands there. -/
theorem ofFractions_wheel (less : low < high) (first : 0 ≤ t) (last : t < 6)
    (same : wheel low high t = (r, g, b)) :
    (ofFractions r g b).largest = high ∧ (ofFractions r g b).smallest = low ∧
      (ofFractions r g b).sector = t := by
  have below : ⌊t⌋₊ < 6 := (Nat.floor_lt first).mpr (by exact_mod_cast last)
  have floor : (⌊t⌋₊ : K) ≤ t := Nat.floor_le first
  have next : t < ⌊t⌋₊ + 1 := Nat.lt_floor_add_one t
  rw [wheel_eq_arrange below floor next.le] at same
  obtain ⟨largest, smallest, sector⟩ :=
    ofFractions_arrange below less (by linarith) (by linarith) same
  exact ⟨largest, smallest, by rw [sector]; ring⟩

/-- A color that is no grey stands on the wheel where its sector says. -/
theorem wheel_sector (colored : (ofFractions r g b).chroma ≠ 0) :
    0 ≤ (ofFractions r g b).sector ∧ (ofFractions r g b).sector < 6 ∧
      wheel (ofFractions r g b).smallest (ofFractions r g b).largest (ofFractions r g b).sector =
        (r, g, b) := by
  have less : (ofFractions r g b).smallest < (ofFractions r g b).largest :=
    lt_of_le_of_ne smallest_le_largest (sub_ne_zero.mp colored).symm
  obtain ⟨low, high, part, i, below, less, first, last, same⟩ := exists_arrange less
  obtain ⟨largest, smallest, sector⟩ := ofFractions_arrange below less first last same
  have limit : (i : K) + 1 ≤ 6 := by exact_mod_cast below
  have start : (0 : K) ≤ i := Nat.cast_nonneg i
  rw [largest, smallest, sector]
  refine ⟨by linarith, by linarith, ?_⟩
  rw [wheel_eq_arrange below (by linarith) (by linarith), add_sub_cancel_left]
  exact same

end ChannelSpan

end StyleFunctions
