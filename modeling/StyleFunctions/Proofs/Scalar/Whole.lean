import StyleFunctions.Proofs.Scalar.Exact

/-! Rounding of exact numbers to whole ones. -/

namespace StyleFunctions.Exact

variable {K : Type} [Field K] [LinearOrder K] [FloorRing K] {x : K} {m n : ℤ}

/-- The whole number nearest to an exact one; a half goes away from zero. -/
def nearest (x : K) : ℤ := if x < 0 then -round (-x) else round x

theorem round_eq_nearest (x : K) : Scalar.round x = (nearest x : K) := by
  change (if x < 0 then -(round (-x) : K) else (round x : K)) = (nearest x : K)
  unfold nearest
  split
  · rw [Int.cast_neg]
  · rfl

theorem isIntegral_iff : Scalar.isIntegral x = true ↔ x = (integerPart x : K) := by
  have unfolded : Scalar.isIntegral x =
      (x - (integerPart x : K) == @OfNat.ofNat K 0 (Scalar.instOfNat 0)) := rfl
  rw [unfolded, literal_zero, beq_iff_eq, sub_eq_zero]

variable [IsStrictOrderedRing K]

/-- From zero on, the integral numbers are the natural ones. -/
theorem nonneg_isIntegral_iff :
    0 ≤ x ∧ Scalar.isIntegral x = true ↔ ∃ n : ℕ, x = n := by
  rw [isIntegral_iff]
  constructor
  · rintro ⟨nonneg, whole⟩
    refine ⟨⌊x⌋₊, ?_⟩
    rw [integerPart, if_neg (not_lt.mpr nonneg)] at whole
    rw [natCast_floor_eq_intCast_floor nonneg]
    exact whole
  · rintro ⟨n, rfl⟩
    have nonneg : (0 : K) ≤ n := Nat.cast_nonneg n
    refine ⟨nonneg, ?_⟩
    rw [integerPart, if_neg (not_lt.mpr nonneg), Int.floor_natCast, Int.cast_natCast]

theorem abs_sub_nearest (x : K) : |x - nearest x| ≤ 1 / 2 := by
  unfold nearest
  split
  · have near := abs_sub_round (-x)
    rw [← abs_neg] at near
    rw [Int.cast_neg]
    convert near using 2
    ring
  · exact abs_sub_round x

/-- Rounding leads out of no interval between whole numbers. -/
theorem nearest_mem (inside : x ∈ Set.Icc (m : K) n) : m ≤ nearest x ∧ nearest x ≤ n := by
  obtain ⟨above, below⟩ := abs_le.mp (abs_sub_nearest x)
  have lower : (m : K) < nearest x + 1 := by linarith [inside.1]
  have upper : (nearest x : K) < n + 1 := by linarith [inside.2]
  exact ⟨Int.lt_add_one_iff.mp (by exact_mod_cast lower),
    Int.lt_add_one_iff.mp (by exact_mod_cast upper)⟩

theorem nearest_lt_iff (nonneg : 0 ≤ x) : nearest x < n ↔ x < n - 1 / 2 := by
  rw [nearest, if_neg (not_lt.mpr nonneg), round_eq, Int.floor_lt]
  constructor <;> intro less <;> linarith

theorem nearest_neg (x : K) : nearest (-x) = -nearest x := by
  unfold nearest
  rcases lt_trichotomy x 0 with negative | rfl | positive
  · rw [if_pos negative, if_neg (by linarith), neg_neg]
  · simp
  · rw [if_neg (not_lt.mpr positive.le), if_pos (by linarith), neg_neg]

/-- No whole number is nearer. -/
theorem abs_sub_nearest_le (x : K) (n : ℤ) : |x - nearest x| ≤ |x - n| := by
  by_cases same : n = nearest x
  · rw [same]
  · have apart : (1 : K) ≤ |(n - nearest x : ℤ)| := by
      exact_mod_cast Int.one_le_abs (sub_ne_zero.mpr same)
    have near := abs_sub_nearest x
    have way := abs_sub_le (n : K) x (nearest x)
    rw [Int.cast_abs, Int.cast_sub] at apart
    rw [abs_sub_comm (n : K) x] at way
    linarith

theorem abs_lt_nearest_of_nonneg (nonneg : 0 ≤ x) (tie : |x - n| = |x - nearest x|) :
    n = nearest x ∨ |n| < |nearest x| := by
  rcases abs_eq_abs.mp tie with same | opposite
  · left
    exact_mod_cast sub_right_injective same
  · -- The number is in the middle, and not below the middle that is rounded up.
    have sum : (n : K) + nearest x = 2 * x := by linarith
    have below : x < (nearest x + 1 : ℤ) - 1 / 2 := (nearest_lt_iff nonneg).mp (lt_add_one _)
    have least : nearest x < n + 2 := by
      have near := (abs_le.mp (abs_sub_nearest x)).1
      have cast : (nearest x : K) < n + 2 := by linarith
      exact_mod_cast cast
    have most : n < nearest x + 1 := by
      push_cast at below
      have cast : (n : K) < nearest x + 1 := by linarith
      exact_mod_cast cast
    have pos : 0 ≤ n + nearest x := by
      have cast : (0 : K) ≤ n + nearest x := by linarith
      exact_mod_cast cast
    rcases Int.lt_or_eq_of_le (Int.lt_add_one_iff.mp most) with less | same
    · right
      rw [abs_of_nonneg (by omega), abs_of_nonneg (by omega)]
      exact less
    · exact .inl same

/-- Of two whole numbers that are equally near it is the one further from zero. -/
theorem abs_lt_nearest (tie : |x - n| = |x - nearest x|) : n = nearest x ∨ |n| < |nearest x| := by
  rcases le_total 0 x with nonneg | nonpos
  · exact abs_lt_nearest_of_nonneg nonneg tie
  · have mirrored : |-x - (-n : ℤ)| = |-x - nearest (-x)| := by
      rw [nearest_neg, Int.cast_neg, Int.cast_neg, ← neg_sub', ← neg_sub', abs_neg, abs_neg, tie]
    have further := abs_lt_nearest_of_nonneg (neg_nonneg.mpr nonpos) mirrored
    rwa [nearest_neg, neg_inj, abs_neg, abs_neg] at further

end StyleFunctions.Exact
