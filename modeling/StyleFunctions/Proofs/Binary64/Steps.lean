import StyleFunctions.Proofs.Binary64.PowerOfTen

/-!
Steps of a given size, counted in doubles: a number is scaled, rounded to a whole count and scaled
back. The result is half a step off and two roundings, and a whole number comes back as it was or as
a neighbor.
-/

namespace StyleFunctions.Binary64

/-- A positive double of which a given step makes about one. -/
structure Scale (step : ℚ) (c : Float) : Prop where
  positive : isNegative c = false
  finite : c.isFinite = true
  near : |size c * step - 1| ≤ 1 / 2 ^ 43
  least : halfUnit * 2 ^ 51 ≤ step
  most : step ≤ finiteRange

namespace Scale

variable {step : ℚ} {c x : Float}

theorem step_pos (scale : Scale step c) : 0 < step := by
  linarith [scale.least, halfUnit_pos]

theorem size_pos (scale : Scale step c) : 0 < size c := by
  have below := (abs_le.mp scale.near).1
  have product : 0 < size c * step := by linarith
  exact pos_of_mul_pos_left product scale.step_pos.le

theorem bits_pos (scale : Scale step c) : 0 < magnitudeBits c := size_pos_iff.mp scale.size_pos

theorem inv_le (scale : Scale step c) : 1 / size c ≤ step * (1 + 1 / 2 ^ 43 + 1 / 2 ^ 80) := by
  have below := (abs_le.mp scale.near).1
  have product : 1 - 1 / 2 ^ 43 ≤ size c * step := by linarith
  rw [div_le_iff₀ scale.size_pos]
  calc
    (1 : ℚ) ≤ (1 - 1 / 2 ^ 43) * (1 + 1 / 2 ^ 43 + 1 / 2 ^ 80) := by norm_num
    _ ≤ size c * step * (1 + 1 / 2 ^ 43 + 1 / 2 ^ 80) :=
      mul_le_mul_of_nonneg_right product (by positivity)
    _ = step * (1 + 1 / 2 ^ 43 + 1 / 2 ^ 80) * size c := by ring

section

variable (scale : Scale step c) (finite : x.isFinite = true) (inside : (x * c).isFinite = true)

include scale finite inside

/-- The whole number of steps is off by half a step and one rounding. -/
theorem steps_near :
    |size (round (x * c)) / size c - size x| ≤
      step * (1 / 2 + 1 / 2 ^ 44 + 1 / 2 ^ 58) + size x / 2 ^ 53 := by
  have positive := scale.size_pos
  have scaled : |size (x * c) - size x * size c| ≤ halfUnit + size x * size c / 2 ^ 53 :=
    near_mul finite scale.finite inside
  have rounded := (round_near inside).2.2
  have tiny := halfUnit_of_le (show 20 ≤ 308 by decide)
  have inverse := scale.inv_le
  have apart : |size (round (x * c)) - size x * size c| ≤
      (1 / 2 + 1 / 2 ^ 60) + size x * size c / 2 ^ 53 := by
    have sum := abs_sub_le (size (round (x * c))) (size (x * c)) (size x * size c)
    linarith
  calc
    |size (round (x * c)) / size c - size x| =
        |size (round (x * c)) - size x * size c| / size c := by
      rw [← abs_of_pos positive, ← abs_div, abs_of_pos positive, sub_div,
        mul_div_cancel_right₀ _ positive.ne']
    _ ≤ ((1 / 2 + 1 / 2 ^ 60) + size x * size c / 2 ^ 53) / size c :=
      div_le_div_of_nonneg_right apart positive.le
    _ = (1 / 2 + 1 / 2 ^ 60) * (1 / size c) + size x / 2 ^ 53 := by field_simp
    _ ≤ (1 / 2 + 1 / 2 ^ 60) * (step * (1 + 1 / 2 ^ 43 + 1 / 2 ^ 80)) + size x / 2 ^ 53 :=
      add_le_add_left (mul_le_mul_of_nonneg_left inverse (by positivity)) _
    _ ≤ step * (1 / 2 + 1 / 2 ^ 44 + 1 / 2 ^ 58) + size x / 2 ^ 53 := by
      linarith [scale.step_pos]

theorem isNegative_unscaled : isNegative (round (x * c) / c) = isNegative x := by
  rw [div_eq (round_near inside).1 scale.finite scale.bits_pos, isNegative_ofRatio,
    (round_near inside).2.1, mul_eq finite scale.finite, isNegative_ofRatio, scale.positive,
    Bool.bne_false, Bool.bne_false]

theorem isFinite_unscaled (small : size x < 2 ^ 52) : (round (x * c) / c).isFinite = true := by
  have near := (abs_le.mp (steps_near scale finite inside)).2
  have room := finiteRange_of_le (show 20 ≤ 308 by decide)
  apply isFinite_div_of_le (round_near inside).1 scale.finite scale.bits_pos
  linarith [scale.most, scale.step_pos]

/-- What comes back is off by half a step and two roundings. -/
theorem unscaled_near (small : size x < 2 ^ 52) :
    |size (round (x * c) / c) - size x| ≤ (1 + 1 / 2 ^ 42) * (step / 2 + size x / 2 ^ 52) := by
  have whole := (round_near inside).1
  have steps := steps_near scale finite inside
  have divided : |size (round (x * c) / c) - size (round (x * c)) / size c| ≤
      halfUnit + size (round (x * c)) / size c / 2 ^ 53 :=
    near_div whole scale.finite scale.bits_pos (isFinite_unscaled scale finite inside small)
  have sum := abs_sub_le (size (round (x * c) / c)) (size (round (x * c)) / size c) (size x)
  have upper := (abs_le.mp steps).2
  linarith [scale.least, scale.step_pos, size_nonneg x]

end

end Scale

/-! ### Powers of ten and their reciprocals -/

/-- What is near to a number is as near to it as a divisor. -/
theorem abs_div_sub_one_le {a b t : ℚ} (pos : 0 < a) (near : |a - b| ≤ b * t) :
    |b / a - 1| ≤ b / a * t := by
  have apart : b / a - 1 = (b - a) / a := by rw [sub_div, div_self pos.ne']
  rw [apart, abs_div, abs_of_pos pos, abs_sub_comm, div_mul_eq_mul_div]
  exact div_le_div_of_nonneg_right near pos.le

section

variable {n : ℕ} {c : Float} (power : PowerOfTen n c) (le : n ≤ 308)

include power le

theorem scale_of_power : Scale (1 / 10 ^ n) c := by
  have positive : (0 : ℚ) < 10 ^ n := by positivity
  have least : (1 : ℚ) ≤ 10 ^ n := one_le_pow₀ (by norm_num)
  have apart : size c * (1 / 10 ^ n) - 1 = (size c - 10 ^ n) / 10 ^ n := by field_simp
  refine ⟨power.positive, power.finite le, ?_, ?_, ?_⟩
  · rw [apart, abs_div, abs_of_pos positive, div_le_iff₀' positive]
    exact (power.near le).trans (mul_le_mul_of_nonneg_left
      ((growth_le le).trans (by norm_num)) positive.le)
  · rw [le_div_iff₀ positive]
    linarith [halfUnit_of_le le]
  · have room := finiteRange_of_le (show 20 ≤ 308 by decide)
    have share : 1 / (10 : ℚ) ^ n ≤ 1 := (div_le_one positive).mpr least
    linarith

theorem reciprocal_near :
    (Scalar.ofNat 1 / c).isFinite = true ∧
      |size (Scalar.ofNat 1 / c) - 1 / size c| ≤ halfUnit + 1 / size c / 2 ^ 53 := by
  have scale := scale_of_power power le
  have whole := denotes_ofNat (show 1 ≤ 2 ^ 53 by decide)
  have unit : size (Scalar.ofNat 1) = 1 := by
    rw [size_of_whole whole.units_eq, Nat.cast_one]
  have finite : (Scalar.ofNat 1 / c).isFinite = true := by
    have room := finiteRange_of_le (show 20 ≤ 308 by decide)
    have share : 1 / (10 : ℚ) ^ n ≤ 1 :=
      (div_le_one (by positivity)).mpr (one_le_pow₀ (by norm_num))
    apply isFinite_div_of_le whole.finite scale.finite scale.bits_pos
    rw [unit]
    linarith [scale.inv_le]
  have near := near_div whole.finite scale.finite scale.bits_pos finite
  rw [Near, unit] at near
  exact ⟨finite, near⟩

/-- The reciprocal of a power of ten, rounded once more. -/
theorem scale_of_inverse : Scale (10 ^ n) (Scalar.ofNat 1 / c) := by
  have scale := scale_of_power power le
  have whole := denotes_ofNat (show 1 ≤ 2 ^ 53 by decide)
  have positive : (0 : ℚ) < 10 ^ n := by positivity
  have least : (1 : ℚ) ≤ 10 ^ n := one_le_pow₀ (by norm_num)
  have tiny := halfUnit_of_le (show 20 ≤ 308 by decide)
  obtain ⟨finite, rounded⟩ := reciprocal_near power le
  have error : |size c - 10 ^ n| ≤ 10 ^ n * (307 / 2 ^ 52) :=
    (power.near le).trans (mul_le_mul_of_nonneg_left (growth_le le) positive.le)
  refine ⟨?_, finite, ?_, by linarith, by linarith [finiteRange_of_le le]⟩
  · rw [div_eq whole.finite scale.finite scale.bits_pos, isNegative_ofRatio, isNegative_ofNat,
      scale.positive]
    rfl
  · have inverted := abs_div_sub_one_le scale.size_pos error
    have scaled : |size (Scalar.ofNat 1 / c) * 10 ^ n - 10 ^ n / size c| ≤
        halfUnit * 10 ^ n + 10 ^ n / size c / 2 ^ 53 := by
      calc
        |size (Scalar.ofNat 1 / c) * 10 ^ n - 10 ^ n / size c| =
            |size (Scalar.ofNat 1 / c) - 1 / size c| * 10 ^ n := by
          rw [← abs_of_pos positive, ← abs_mul, abs_of_pos positive, sub_mul, one_div_mul_eq_div]
        _ ≤ (halfUnit + 1 / size c / 2 ^ 53) * 10 ^ n :=
          mul_le_mul_of_nonneg_right rounded positive.le
        _ = halfUnit * 10 ^ n + 10 ^ n / size c / 2 ^ 53 := by ring
    have sum := abs_sub_le (size (Scalar.ofNat 1 / c) * 10 ^ n) (10 ^ n / size c) 1
    have upper := (abs_le.mp inverted).2
    linarith [halfUnit_of_le le]

end

/-! ### Whole numbers -/

namespace Scale

variable {step : ℚ} {c x : Float} {n count : ℕ} (scale : Scale step c)
  (finite : x.isFinite = true) (whole : units x = n * one) (counted : units c = count * one)

include scale finite whole counted

/-- A product that a double holds exactly is divided exactly. -/
theorem unscaled_of_le (small : n * count ≤ 2 ^ 53) : round (x * c) / c = x := by
  have below := (isFinite_iff x).mp finite
  have unit := one_pos
  have given := bitsOfRatio_representable (representable_of_le small)
  have bits : magnitudeBits (x * c) = bitsOfRatio (n * count * one) 1 := by
    rw [magnitudeBits_mul finite scale.finite, whole, counted]
    apply bitsOfRatio_eq_of_ratio unit Nat.one_pos
    ring
  have inside : (x * c).isFinite = true := by
    rw [isFinite_iff, bits]
    exact given.1
  have product : units (x * c) = n * count * one := by
    rw [units, bits]
    exact given.2
  have split : n * count * one * one = units x * units c := by
    rw [whole, counted]
    ring
  have sign : isNegative (x * c) = isNegative x := by
    rw [mul_eq finite scale.finite, isNegative_ofRatio, scale.positive, Bool.bne_false]
  have kept : bitsOfRatio (units x * units c) (units c) = magnitudeBits x :=
    bitsOfRatio_units (units_pos scale.bits_pos) below
  rw [round_of_whole inside product, div_eq inside scale.finite scale.bits_pos, sign,
    scale.positive, Bool.bne_false, product, split, ofRatio, kept,
    ofMagnitudeBits_self (Nat.le_of_lt below)]

/-- A longer product is rounded once, and so is the quotient. -/
theorem unscaled_neighbor (inside : (x * c).isFinite = true) :
    magnitudeBits x - 1 ≤ magnitudeBits (round (x * c) / c) ∧
      magnitudeBits (round (x * c) / c) ≤ magnitudeBits x + 1 := by
  have below := (isFinite_iff x).mp finite
  rcases Nat.le_total (n * count) (2 ^ 53) with small | large
  · rw [unscaled_of_le scale finite whole counted small]
    exact ⟨Nat.sub_le _ _, Nat.le_succ _⟩
  · have unit := one_pos
    have exact : units x * units c = n * count * one * one := by
      rw [whole, counted]
      ring
    have wide : 2 ^ 53 * one * one ≤ units x * units c := by
      rw [exact]
      exact Nat.mul_le_mul_right _ (Nat.mul_le_mul_right _ large)
    have unitLe : 2 ^ 53 * one ≤ 2 ^ 53 * one * one := Nat.le_mul_of_pos_right _ unit
    obtain ⟨m, product⟩ :=
      exists_whole_of_le inside (le_units_mul finite scale.finite (Nat.le_refl _) wide)
    have close : 2 ^ 53 * ((units (x * c) * one : Nat) - ((units x * units c : Nat) : Int)).natAbs ≤
        units x * units c := by
      rcases units_mul_near finite scale.finite inside with absolute | relative <;> omega
    rw [round_of_whole inside product, magnitudeBits_div inside scale.finite scale.bits_pos]
    exact quotient_neighbor (units_pos scale.bits_pos) below close

end Scale

theorem key_neighbor {x y : Float} (sign : isNegative y = isNegative x)
    (near : magnitudeBits x - 1 ≤ magnitudeBits y ∧ magnitudeBits y ≤ magnitudeBits x + 1) :
    |key y - key x| ≤ 1 := by
  rw [abs_le]
  unfold key signed
  rw [sign]
  split <;> constructor <;> omega

/-- With a factor of zero the count is zero, and zero is divided by it. -/
theorem unscaled_zero {x c : Float} (finite : x.isFinite = true) (zero : magnitudeBits c = 0) :
    (x * c).isFinite = true ∧ (round (x * c) / c).isNaN = true := by
  have none : units c = 0 := by
    rw [units, zero]
    rfl
  have factor : c.isFinite = true := by
    rw [isFinite_iff, zero]
    decide
  have product : magnitudeBits (x * c) = 0 := by
    rw [magnitudeBits_mul finite factor, none, Nat.mul_zero, bitsOfRatio_zero one_pos]
  have inside : (x * c).isFinite = true := by
    rw [isFinite_iff, product]
    decide
  have nothing : units (x * c) = 0 * one := by
    rw [Nat.zero_mul, units, product]
    rfl
  rw [round_of_whole inside nothing]
  exact ⟨inside, isNaN_zero_div_zero product zero⟩

end StyleFunctions.Binary64
