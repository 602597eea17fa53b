import StyleFunctions.Proofs.Color.Gamut

/-!
The algebra of mixtures. The share of a color is its weight, moved toward the more opaque color by what
the difference of the alphas weighs where neither color stands alone; all laws are read off that form.
-/

namespace StyleFunctions

open scoped Exact Checked
open Exact (literal literal_zero literal_one)

namespace Rgba

variable {K : Type} [Field K] [LinearOrder K]

/-- The channels of a color are shared out between two others. -/
structure Shared (share : K) (c d mixed : Rgba K) : Prop where
  red : mixed.red = share * c.red + (1 - share) * d.red
  green : mixed.green = share * c.green + (1 - share) * d.green
  blue : mixed.blue = share * c.blue + (1 - share) * d.blue

structure Between (c d mixed : Rgba K) : Prop where
  red : mixed.red ∈ Set.uIcc c.red d.red
  green : mixed.green ∈ Set.uIcc c.green d.green
  blue : mixed.blue ∈ Set.uIcc c.blue d.blue

theorem Shared.between [IsStrictOrderedRing K] {share : K} {c d mixed : Rgba K}
    (shared : Shared share c d mixed) (part : share ∈ Set.Icc (0 : K) 1) : Between c d mixed := by
  have inside (x y : K) : share * x + (1 - share) * y ∈ Set.uIcc x y := by
    rw [mul_comm share x, mul_comm (1 - share) y]
    exact between_mem Set.left_mem_uIcc Set.right_mem_uIcc part
  exact ⟨shared.red ▸ inside c.red d.red, shared.green ▸ inside c.green d.green,
    shared.blue ▸ inside c.blue d.blue⟩

variable [FloorRing K] {c d : Rgba K} {weight lead : K}

theorem mixShare_checked (weight lead : K) :
    mixShare (Checked.value weight) (.value lead) = .value (mixShare weight lead) := by
  have two : (2 : K) ≠ 0 := two_ne_zero
  simp only [mixShare, Checked.literal, literal, literal_one, Checked.value_mul, Checked.value_sub,
    Checked.value_add, Checked.value_neg, Checked.value_beq, beq_iff_eq]
  split
  · exact Checked.value_div two
  · rename_i moving
    rw [Checked.value_div (divisor_ne_zero moving), Checked.value_add, Checked.value_div two]

theorem mix_checked (c d : Rgba K) (weight : K) :
    c.checked.mix d.checked (.value weight) = (c.mix d weight).checked := by
  simp only [mix, checked, Checked.value_sub, mixShare_checked]
  rfl

/-! ### The share of the first color -/

/-- The alphas pull by their difference, and at either end of the weights not at all. -/
theorem mixShare_eq (weight lead : K) :
    mixShare weight lead =
      weight + lead * (2 * (weight * (1 - weight)) / (1 + (weight * 2 - 1) * lead)) := by
  simp only [mixShare, literal, literal_one, beq_iff_eq]
  split
  · -- The guarded corner: the pull is over zero there, which counts as none.
    rename_i opposite
    rw [opposite, add_neg_cancel, div_zero, mul_zero]
    ring
  · rename_i moving
    have divisor := divisor_ne_zero moving
    field_simp
    ring

theorem mixShare_one (lead : K) : mixShare 1 lead = 1 := by
  rw [mixShare_eq, sub_self, mul_zero, mul_zero, zero_div, mul_zero, add_zero]

theorem mixShare_zero (lead : K) : mixShare 0 lead = 0 := by
  rw [mixShare_eq, zero_mul, mul_zero, zero_div, mul_zero, add_zero]

theorem mixShare_swap (weight lead : K) : mixShare (1 - weight) (-lead) = 1 - mixShare weight lead := by
  have divisor : 1 + ((1 - weight) * 2 - 1) * -lead = 1 + (weight * 2 - 1) * lead := by ring
  rw [mixShare_eq, mixShare_eq, divisor]
  ring

/-! ### Mixtures -/

theorem mix_eq (c d : Rgba K) (weight : K) :
    c.mix d weight =
      let share := mixShare weight (c.alpha - d.alpha)
      ⟨c.red * share + d.red * (1 - share), c.green * share + d.green * (1 - share),
        c.blue * share + d.blue * (1 - share), c.alpha * weight + d.alpha * (1 - weight)⟩ := by
  simp only [mix, literal_one]

theorem shared_mix (c d : Rgba K) (weight : K) :
    Shared (mixShare weight (c.alpha - d.alpha)) c d (c.mix d weight) := by
  rw [mix_eq]
  constructor <;> ring

theorem alpha_mix (c d : Rgba K) (weight : K) :
    (c.mix d weight).alpha = weight * c.alpha + (1 - weight) * d.alpha := by
  rw [mix_eq]
  ring

theorem mix_one (c d : Rgba K) : c.mix d 1 = c := by
  simp only [mix_eq, mixShare_one, sub_self, mul_one, mul_zero, add_zero]

theorem mix_zero (c d : Rgba K) : c.mix d 0 = d := by
  simp only [mix_eq, mixShare_zero, sub_zero, mul_one, mul_zero, zero_add]

theorem mix_swap (c d : Rgba K) (weight : K) : c.mix d weight = d.mix c (1 - weight) := by
  have share : mixShare (1 - weight) (d.alpha - c.alpha) =
      1 - mixShare weight (c.alpha - d.alpha) := by
    rw [← neg_sub c.alpha d.alpha, mixShare_swap]
  simp only [mix_eq, share, sub_sub_cancel, add_comm]

theorem mix_self (c : Rgba K) (weight : K) : c.mix c weight = c := by
  have whole (x share : K) : x * share + x * (1 - share) = x := by ring
  simp only [mix_eq, whole]

/-! ### The side that the alphas pull to -/

variable [IsStrictOrderedRing K]

theorem exists_mixShare_pull (first : 0 < weight) (last : weight < 1)
    (difference : lead ∈ Set.Icc (-1 : K) 1) :
    ∃ pull > 0, mixShare weight lead = weight + lead * pull := by
  have ends : 0 < 2 * (weight * (1 - weight)) :=
    mul_pos two_pos (mul_pos first (sub_pos.mpr last))
  have divisor : 0 < 1 + (weight * 2 - 1) * lead := by
    have inner : |weight * 2 - 1| < 1 := abs_lt.mpr ⟨by linarith, by linarith⟩
    have outer : |lead| ≤ 1 := abs_le.mpr difference
    have product : |(weight * 2 - 1) * lead| < 1 := by
      rw [abs_mul]
      exact mul_lt_one_of_nonneg_of_lt_one_left (abs_nonneg _) inner outer
    linarith [(abs_lt.mp product).1]
  exact ⟨_, div_pos ends divisor, mixShare_eq weight lead⟩

theorem lt_mixShare_iff (first : 0 < weight) (last : weight < 1)
    (difference : lead ∈ Set.Icc (-1 : K) 1) : weight < mixShare weight lead ↔ 0 < lead := by
  obtain ⟨pull, pos, same⟩ := exists_mixShare_pull first last difference
  rw [same, lt_add_iff_pos_right, mul_pos_iff_of_pos_right pos]

theorem mixShare_lt_iff (first : 0 < weight) (last : weight < 1)
    (difference : lead ∈ Set.Icc (-1 : K) 1) : mixShare weight lead < weight ↔ lead < 0 := by
  obtain ⟨pull, pos, same⟩ := exists_mixShare_pull first last difference
  rw [same, add_lt_iff_neg_left, ← neg_pos, ← neg_mul, mul_pos_iff_of_pos_right pos, neg_pos]

theorem mixShare_eq_iff (first : 0 < weight) (last : weight < 1)
    (difference : lead ∈ Set.Icc (-1 : K) 1) : mixShare weight lead = weight ↔ lead = 0 := by
  obtain ⟨pull, pos, same⟩ := exists_mixShare_pull first last difference
  rw [same, add_eq_left, mul_eq_zero_iff_right pos.ne']

end Rgba

open Rgba in
/-- Over exact numbers, for colors with any channels: a mixture divides by zero nowhere; a color with all
of the weight stands alone; two colors may change places when their weights do; a color mixed with itself
stays; and no channel leaves the range between the two. The alphas are shared out by the weight, and the
channels by a share that is moved from the weight toward the more opaque color. -/
theorem mix_algebra (c d : Rgba ℚ) (left : c.alpha ∈ Set.Icc 0 1) (right : d.alpha ∈ Set.Icc 0 1)
    (weight : ℚ) (part : weight ∈ Set.Icc 0 1) :
    c.checked.mix d.checked (.value weight) = (c.mix d weight).checked ∧
      c.mix d 1 = c ∧ c.mix d 0 = d ∧ c.mix d weight = d.mix c (1 - weight) ∧ c.mix c weight = c ∧
      Between c d (c.mix d weight) ∧
      (c.mix d weight).alpha = weight * c.alpha + (1 - weight) * d.alpha ∧
      let share := mixShare weight (c.alpha - d.alpha)
      Shared share c d (c.mix d weight) ∧
        (0 < weight → weight < 1 →
          (weight < share ↔ d.alpha < c.alpha) ∧ (share = weight ↔ c.alpha = d.alpha) ∧
          (share < weight ↔ c.alpha < d.alpha)) := by
  have difference := difference_mem left right
  have shared := shared_mix c d weight
  refine ⟨mix_checked c d weight, mix_one c d, mix_zero c d, mix_swap c d weight, mix_self c weight,
    shared.between (mixShare_mem part difference), alpha_mix c d weight, shared, ?_⟩
  intro first last
  exact ⟨(lt_mixShare_iff first last difference).trans sub_pos,
    (mixShare_eq_iff first last difference).trans sub_eq_zero,
    (mixShare_lt_iff first last difference).trans sub_neg⟩

open Rgba in
/-- An opaque color and a transparent one, with channels that no display shows: a quarter of the weight
takes more than a quarter of the channels. -/
theorem mix_algebra_opaque :
    ((1 : ℚ) ∈ Set.Icc 0 1 ∧ (0 : ℚ) ∈ Set.Icc 0 1 ∧ (1 / 4 : ℚ) ∈ Set.Icc 0 1) ∧
      (⟨300, -20, 0, 1⟩ : Rgba ℚ).mix ⟨0, 40, 80, 0⟩ 1 = ⟨300, -20, 0, 1⟩ ∧
      (⟨300, -20, 0, 1⟩ : Rgba ℚ).mix ⟨0, 40, 80, 0⟩ (1 / 4) =
        (⟨0, 40, 80, 0⟩ : Rgba ℚ).mix ⟨300, -20, 0, 1⟩ (1 - 1 / 4) ∧
      1 / 4 < mixShare (1 / 4 : ℚ) (1 - 0) := by
  have one : (1 : ℚ) ∈ Set.Icc 0 1 := by norm_num
  have zero : (0 : ℚ) ∈ Set.Icc 0 1 := by norm_num
  have quarter : (1 / 4 : ℚ) ∈ Set.Icc 0 1 := by norm_num
  obtain ⟨_, alone, _, swapped, _, _, _, _, pull⟩ :=
    mix_algebra ⟨300, -20, 0, 1⟩ ⟨0, 40, 80, 0⟩ one zero (1 / 4) quarter
  exact ⟨⟨one, zero, quarter⟩, alone, swapped,
    (pull (by norm_num) (by norm_num)).1.mpr zero_lt_one⟩

end StyleFunctions
