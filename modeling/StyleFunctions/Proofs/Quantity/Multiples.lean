import StyleFunctions.Proofs.Scalar.Real
import StyleFunctions.Proofs.Scalar.Whole
import StyleFunctions.Quantity.Rounding

/-!
Rounding to decimal places over the real numbers. What a rounded number is does not depend on how it is
found, and all laws of rounding follow from this: it is the nearest number with so many places, and of
two that are equally near the one further from zero.
-/

namespace StyleFunctions.Exact

/-- The numbers with at most so many decimal places. -/
def HasPlaces (places : ℕ) (x : ℝ) : Prop := ∃ n : ℤ, x = n / (10 ^ places : ℕ)

/-- A number is rounded to so many decimal places. -/
structure Rounded (places : ℕ) (x rounded : ℝ) : Prop where
  has_places : HasPlaces places rounded
  nearest : ∀ m, HasPlaces places m → |x - rounded| ≤ |x - m|
  away : ∀ m, HasPlaces places m → |x - m| = |x - rounded| → m = rounded ∨ |m| < |rounded|

variable {places fewer : ℕ} {x y r s : ℝ}

theorem hasPlaces_iff : HasPlaces places x ↔ ∃ n : ℤ, x = n / 10 ^ places := by
  unfold HasPlaces
  rw [Nat.cast_pow, Nat.cast_ofNat]

theorem hasPlaces_mono (le : fewer ≤ places) (given : HasPlaces fewer x) : HasPlaces places x := by
  obtain ⟨n, rfl⟩ := hasPlaces_iff.mp given
  refine hasPlaces_iff.mpr ⟨n * 10 ^ (places - fewer), ?_⟩
  have split : (10 : ℝ) ^ places = 10 ^ fewer * 10 ^ (places - fewer) := by
    rw [← pow_add, Nat.add_sub_cancel' le]
  rw [split]
  push_cast
  field_simp

theorem hasPlaces_neg (given : HasPlaces places x) : HasPlaces places (-x) := by
  obtain ⟨n, rfl⟩ := given
  exact ⟨-n, by rw [Int.cast_neg, neg_div]⟩

theorem hasPlaces_intCast (places : ℕ) (n : ℤ) : HasPlaces places n :=
  hasPlaces_mono (Nat.zero_le places) ⟨n, by rw [pow_zero, Nat.cast_one, div_one]⟩

namespace Rounded

theorem unique (first : Rounded places x r) (second : Rounded places x s) : r = s := by
  have near := first.nearest s second.has_places
  have tie := le_antisymm near (second.nearest r first.has_places)
  rcases first.away s second.has_places tie.symm with same | less
  · exact same.symm
  · rcases second.away r first.has_places tie with same | greater
    · exact same
    · exact absurd less (lt_asymm greater)

theorem self (given : HasPlaces places x) : Rounded places x x where
  has_places := given
  nearest m _ := by
    rw [sub_self, abs_zero]
    exact abs_nonneg _
  away m _ tie := by
    rw [sub_self, abs_zero, abs_eq_zero, sub_eq_zero] at tie
    exact .inl tie.symm

theorem abs_neg_sub (x m : ℝ) : |-x - m| = |x - -m| := by
  rw [← abs_neg, neg_sub', neg_neg]

theorem neg (rounded : Rounded places x r) : Rounded places (-x) (-r) where
  has_places := hasPlaces_neg rounded.has_places
  nearest m given := by
    rw [abs_neg_sub, abs_neg_sub, neg_neg]
    exact rounded.nearest (-m) (hasPlaces_neg given)
  away m given tie := by
    rw [abs_neg_sub, abs_neg_sub, neg_neg] at tie
    rw [abs_neg, ← abs_neg m]
    exact (rounded.away (-m) (hasPlaces_neg given) tie).imp_left neg_eq_iff_eq_neg.mp

/-- Were the rounded numbers in the other order, both numbers would lie in the middle between them. -/
theorem mono (first : Rounded places x r) (le : x ≤ y) (second : Rounded places y s) : r ≤ s := by
  by_contra crossed
  rw [not_le] at crossed
  have lower := sq_le_sq.mpr (first.nearest s second.has_places)
  have upper := sq_le_sq.mpr (second.nearest r first.has_places)
  have above : r + s ≤ 2 * x := by nlinarith
  have below : 2 * y ≤ r + s := by nlinarith
  have same : x = y := by linarith
  subst same
  exact crossed.ne' (first.unique second)

end Rounded

/-! ### The program's rounding -/

theorem roundAt_eq (places : ℕ) (x : ℝ) :
    roundAt places x =
      if 2 ^ 52 ≤ |x| then x else (Exact.nearest (x * 10 ^ places) : ℝ) / 10 ^ places := by
  have factor : Scalar.intPower (@OfNat.ofNat ℝ 10 (Scalar.instOfNat 10)) (places : ℤ) =
      10 ^ places := by
    rw [intPower_natCast, literal]
  have limit : (integralLimit : ℝ) = 2 ^ 52 := by
    rw [integralLimit, literal]
    norm_num
  have unfolded : roundAt places x =
      if integralLimit ≤ |x| ∨ true = false then x
      else Scalar.round (x * Scalar.intPower (@OfNat.ofNat ℝ 10 (Scalar.instOfNat 10)) (places : ℤ)) /
        Scalar.intPower (@OfNat.ofNat ℝ 10 (Scalar.instOfNat 10)) (places : ℤ) := rfl
  rw [unfolded, factor, limit, round_eq_nearest]
  simp only [Bool.true_eq_false, or_false]

theorem roundAt_of_large (large : 2 ^ 52 ≤ |x|) (places : ℕ) : roundAt places x = x := by
  rw [roundAt_eq, if_pos large]

/-- Below the limit the program rounds. -/
theorem rounded_roundAt (small : |x| < 2 ^ 52) (places : ℕ) : Rounded places x (roundAt places x) := by
  have pos : (0 : ℝ) < 10 ^ places := by positivity
  have scaled (n : ℤ) : |x - n / 10 ^ places| = |x * 10 ^ places - n| / 10 ^ places := by
    rw [← abs_of_pos pos, ← abs_div, abs_of_pos pos, sub_div, mul_div_cancel_right₀ _ pos.ne']
  rw [roundAt_eq, if_neg (not_le.mpr small)]
  refine ⟨hasPlaces_iff.mpr ⟨_, rfl⟩, ?nearest, ?away⟩
  case nearest =>
    intro m given
    obtain ⟨n, rfl⟩ := hasPlaces_iff.mp given
    rw [scaled, scaled]
    exact div_le_div_of_nonneg_right (abs_sub_nearest_le _ n) pos.le
  case away =>
    intro m given tie
    obtain ⟨n, rfl⟩ := hasPlaces_iff.mp given
    rw [scaled, scaled, div_left_inj' pos.ne'] at tie
    rcases abs_lt_nearest tie with rfl | less
    · exact .inl rfl
    · right
      rw [abs_div, abs_div]
      exact div_lt_div_of_pos_right (by exact_mod_cast less) (abs_pos.mpr pos.ne')

theorem roundAt_of_hasPlaces (given : HasPlaces places x) : roundAt places x = x := by
  rcases lt_or_ge |x| (2 ^ 52) with small | large
  · exact (rounded_roundAt small places).unique (.self given)
  · exact roundAt_of_large large places

theorem roundAt_roundAt (places : ℕ) (x : ℝ) :
    roundAt places (roundAt places x) = roundAt places x := by
  rcases lt_or_ge |x| (2 ^ 52) with small | large
  · exact roundAt_of_hasPlaces (rounded_roundAt small places).has_places
  · rw [roundAt_of_large large, roundAt_of_large large]

theorem roundAt_neg (places : ℕ) (x : ℝ) : roundAt places (-x) = -roundAt places x := by
  rcases lt_or_ge |x| (2 ^ 52) with small | large
  · have mirrored : |-x| < 2 ^ 52 := by rwa [abs_neg]
    exact (rounded_roundAt mirrored places).unique (rounded_roundAt small places).neg
  · rw [roundAt_of_large large, roundAt_of_large (by rwa [abs_neg])]

/-- The limit is a whole number, so rounding leads no number across it. -/
theorem abs_roundAt_le (small : |x| < 2 ^ 52) (places : ℕ) : |roundAt places x| ≤ 2 ^ 52 := by
  have whole : HasPlaces places (2 ^ 52) := by
    have cast : ((4503599627370496 : ℤ) : ℝ) = 2 ^ 52 := by norm_num
    rw [← cast]
    exact hasPlaces_intCast places _
  obtain ⟨above, below⟩ := abs_lt.mp small
  have rounded := rounded_roundAt small places
  exact abs_le.mpr
    ⟨(Rounded.self (hasPlaces_neg whole)).mono above.le rounded, rounded.mono below.le (.self whole)⟩

theorem roundAt_mono (places : ℕ) (le : x ≤ y) : roundAt places x ≤ roundAt places y := by
  rcases lt_or_ge |x| (2 ^ 52) with small | large
  · have lower := (abs_lt.mp small).1
    have upper := (abs_le.mp (abs_roundAt_le small places)).2
    rcases lt_or_ge |y| (2 ^ 52) with small' | large'
    · exact (rounded_roundAt small places).mono le (rounded_roundAt small' places)
    · rw [roundAt_of_large large']
      rcases le_abs'.mp large' with negative | positive <;> linarith
  · rw [roundAt_of_large large]
    rcases lt_or_ge |y| (2 ^ 52) with small | large'
    · have upper := (abs_lt.mp small).2
      have lower := (abs_le.mp (abs_roundAt_le small places)).1
      rcases le_abs'.mp large with negative | positive <;> linarith
    · rw [roundAt_of_large large']
      exact le

end StyleFunctions.Exact
