import StyleFunctions.Proofs.Binary64.Steps
import StyleFunctions.Quantity.Rounding

/-!
Rounding to decimal places in doubles. Places after the point are counted in steps of a power of ten,
as long as this power is finite. The number of places is read as a signed one, and from `2 ^ 31` on
it asks for tens before the point.
-/

namespace StyleFunctions

open Binary64

/-! ### The rounding -/

/-- The power of ten that a rounding multiplies with. -/
def placeFactor (exponent : Int) : Float := Scalar.intPower (Scalar.ofNat 10) exponent

theorem placeFactor_neg {n : ℕ} (pos : 0 < n) :
    placeFactor (-n) = Scalar.ofNat 1 / placeFactor n := by
  have negative : (-n : Int) < 0 := by omega
  have positive : ¬ (n : Int) < 0 := by omega
  have size : (-n : Int).natAbs = (n : Int).natAbs := Int.natAbs_neg n
  unfold placeFactor Scalar.intPower
  rw [if_pos negative, if_neg positive, size]
  rfl

section

variable {exponent : Int} {x : Float} (finite : x.isFinite = true)

include finite

/-- A number is left alone when it has no such digits or cannot be scaled. -/
theorem roundAt_eq (exponent : Int) :
    roundAt exponent x =
      if 2 ^ 52 ≤ size x ∨ (x * placeFactor exponent).isFinite = false then x
      else round (x * placeFactor exponent) / placeFactor exponent := by
  have limit : (integralLimit : Float) ≤ Scalar.abs x ↔ (2 : ℚ) ^ 52 ≤ size x := by
    have bound := ofNat_le_abs_iff finite (show 4503599627370496 ≤ 2 ^ 53 by decide)
    have cast : (2 : ℚ) ^ 52 = (4503599627370496 : ℕ) := by norm_num
    rw [cast]
    exact bound
  have unfolded : roundAt exponent x =
      if integralLimit ≤ Scalar.abs x ∨ (x * placeFactor exponent).isFinite = false then x
      else round (x * placeFactor exponent) / placeFactor exponent := rfl
  rw [unfolded]
  exact if_congr (or_congr_left limit) rfl rfl

theorem roundAt_cases (exponent : Int) :
    roundAt exponent x = x ∨
      size x < 2 ^ 52 ∧ (x * placeFactor exponent).isFinite = true ∧
        roundAt exponent x = round (x * placeFactor exponent) / placeFactor exponent := by
  rw [roundAt_eq finite exponent]
  split
  case isTrue => exact .inl rfl
  case isFalse scaled =>
    rw [not_or, not_le, Bool.not_eq_false] at scaled
    exact .inr ⟨scaled.1, scaled.2, rfl⟩

theorem roundAt_of_large (large : 2 ^ 52 ≤ size x) (exponent : Int) : roundAt exponent x = x := by
  rw [roundAt_eq finite, if_pos (.inl large)]

theorem roundAt_near {step : ℚ} (scale : Scale step (placeFactor exponent)) :
    (roundAt exponent x).isFinite = true ∧
      |toRat (roundAt exponent x) - toRat x| ≤
        (1 + 1 / 2 ^ 42) * (step / 2 + |toRat x| / 2 ^ 52) := by
  rw [abs_toRat x]
  rcases roundAt_cases finite exponent with same | ⟨small, inside, unscaled⟩
  · have nonneg := size_nonneg x
    have pos := scale.step_pos
    rw [same, sub_self, abs_zero]
    exact ⟨finite, by positivity⟩
  · rw [unscaled, abs_toRat_sub (scale.isNegative_unscaled finite inside)]
    exact ⟨scale.isFinite_unscaled finite inside small, scale.unscaled_near finite inside small⟩

/-! ### Places after the point -/

/-- With more than 308 places the factor is infinite, and nothing can be scaled. -/
theorem roundAt_of_lt {places : ℕ} (beyond : 308 < places) : roundAt places x = x := by
  have infinite := (powerOfTen_intPower places).infinite beyond
  rw [roundAt_eq finite, if_pos (.inr (mul_infinity infinite))]

/-- Half of the last place and two roundings, whatever the number of places. -/
theorem roundAt_places (places : ℕ) :
    (roundAt places x).isFinite = true ∧
      |toRat (roundAt places x) - toRat x| ≤
        (1 + 1 / 2 ^ 42) * (1 / 10 ^ places / 2 + |toRat x| / 2 ^ 52) := by
  rcases Nat.lt_or_ge 308 places with beyond | within
  · rw [roundAt_of_lt finite beyond, sub_self, abs_zero]
    exact ⟨finite, by positivity⟩
  · exact roundAt_near finite (scale_of_power (powerOfTen_intPower places) within)

/-- A whole number becomes a neighbor at most, and is kept when it has room for its places. -/
theorem roundAt_whole (integral : Scalar.isIntegral x = true) (places : ℕ) :
    |key (roundAt places x) - key x| ≤ 1 ∧
      (|toRat x| * 10 ^ places ≤ 2 ^ 53 → roundAt places x = x) := by
  obtain ⟨_, multiple⟩ := (isIntegral_iff x).mp integral
  obtain ⟨n, whole⟩ : ∃ n, units x = n * one := ⟨_, multiple.symm⟩
  rcases Nat.lt_or_ge 308 places with beyond | within
  · rw [roundAt_of_lt finite beyond, sub_self, abs_zero]
    exact ⟨zero_le_one, fun _ => rfl⟩
  · have power := powerOfTen_intPower places
    have scale : Scale (1 / 10 ^ places) (placeFactor places) := scale_of_power power within
    obtain ⟨count, counted, exact⟩ := power.exists_whole within
    rcases roundAt_cases finite places with same | ⟨small, inside, unscaled⟩
    · rw [same, sub_self, abs_zero]
      exact ⟨zero_le_one, fun _ => rfl⟩
    · rw [unscaled]
      have neighbor := scale.unscaled_neighbor finite whole counted inside
      refine ⟨key_neighbor (scale.isNegative_unscaled finite inside) neighbor, fun short => ?_⟩
      apply scale.unscaled_of_le finite whole counted
      rw [abs_toRat, size_of_whole whole] at short
      have room : n * 10 ^ places ≤ 2 ^ 53 := by
        have cast : ((n * 10 ^ places : ℕ) : ℚ) ≤ (2 ^ 53 : ℕ) := by
          push_cast
          exact short
        exact Nat.cast_le.mp cast
      rcases Nat.eq_zero_or_pos n with rfl | pos
      · rw [Nat.zero_mul]
        exact Nat.zero_le _
      · have few : places ≤ 22 := by
          by_contra many
          have raised : 10 ^ 23 ≤ 10 ^ places :=
            Nat.pow_le_pow_right (by decide) (Nat.lt_of_not_le many)
          have least := Nat.le_mul_of_pos_left (10 ^ places) pos
          omega
        rw [exact few]
        exact room

/-! ### Tens before the point -/

omit finite in
theorem scale_tens {tens : ℕ} (pos : 0 < tens) (within : tens ≤ 308) :
    Scale (10 ^ tens) (placeFactor (-tens)) := by
  rw [placeFactor_neg pos]
  exact scale_of_inverse (powerOfTen_intPower tens) within

/-- With more than 308 tens the factor is zero, and zero is divided by it. -/
theorem isNaN_roundAt {tens : ℕ} (beyond : 308 < tens) (small : size x < 2 ^ 52) :
    (roundAt (-tens) x).isNaN = true := by
  have infinite := (powerOfTen_intPower tens).infinite beyond
  have whole := denotes_ofNat (show 1 ≤ 2 ^ 53 by decide)
  have zero : magnitudeBits (placeFactor (-tens)) = 0 := by
    rw [placeFactor_neg (Nat.zero_lt_of_lt beyond), placeFactor,
      div_infinity whole.finite infinite, magnitudeBits_ofMagnitudeBits _ (Nat.zero_le _)]
  obtain ⟨inside, lost⟩ := unscaled_zero finite zero
  have scaled : ¬ (2 ^ 52 ≤ size x ∨ (x * placeFactor (-tens)).isFinite = false) := by
    rw [not_or, not_le, Bool.not_eq_false]
    exact ⟨small, inside⟩
  rw [roundAt_eq finite, if_neg scaled]
  exact lost

end

/-! ### The number of places -/

theorem placesExponent_eq (places : UInt32) :
    placesExponent places =
      if 2 * places.toNat < 2 ^ 32 then (places.toNat : Int) else (places.toNat : Int) - 2 ^ 32 :=
  BitVec.toInt_eq_toNat_cond places.toBitVec

theorem placesExponent_of_lt {places : UInt32} (small : places.toNat < 2 ^ 31) :
    placesExponent places = places.toNat := by
  rw [placesExponent_eq, if_pos (by omega)]

/-- From `2 ^ 31` on a number of places is read as a negative one. -/
theorem placesExponent_of_le {places : UInt32} (large : 2 ^ 31 ≤ places.toNat) :
    placesExponent places = -((2 ^ 32 - places.toNat : ℕ) : Int) := by
  have bound : places.toNat < 2 ^ 32 := places.toNat_lt
  rw [placesExponent_eq, if_neg (by omega)]
  omega

section

variable (d : Dimension Float) (places : UInt32)

theorem Dimension.roundTo_eq :
    d.roundTo places = ⟨roundAt (placesExponent places) d.value, d.unit⟩ := rfl

theorem Dimension.roundTo_unit : (d.roundTo places).unit = d.unit := by
  simp only [Dimension.roundTo_eq]

theorem Dimension.roundTo_value :
    (d.roundTo places).value = roundAt (placesExponent places) d.value := by
  simp only [Dimension.roundTo_eq]

end

theorem Dimension.roundTo_of_kept {d : Dimension Float} {places : UInt32}
    (kept : (d.roundTo places).value = d.value) : d.roundTo places = d := by
  have unit := d.roundTo_unit places
  generalize d.roundTo places = rounded at *
  cases rounded
  cases d
  cases kept
  cases unit
  rfl

/-- Rounding to places in doubles. The unit stays, and so does a value without digits after the
point. With fewer than `2 ^ 31` places the result is finite and off by half of the last place, up to
two roundings; a whole number becomes a neighbor at most, and comes back where a double has room for
its places. From `2 ^ 31` places on the value is rounded to a power of ten, or lost. -/
theorem Dimension.roundTo_near (d : Dimension Float) (places : UInt32)
    (finite : d.value.isFinite = true) :
    (d.roundTo places).unit = d.unit ∧
    (2 ^ 52 ≤ |toRat d.value| → d.roundTo places = d) ∧
    (places.toNat < 2 ^ 31 →
      (d.roundTo places).value.isFinite = true ∧
      |toRat (d.roundTo places).value - toRat d.value| ≤
        (1 + 1 / 2 ^ 42) * (1 / 10 ^ places.toNat / 2 + |toRat d.value| / 2 ^ 52) ∧
      (308 < places.toNat → d.roundTo places = d) ∧
      (Scalar.isIntegral d.value = true →
        |key (d.roundTo places).value - key d.value| ≤ 1 ∧
        (|toRat d.value| * 10 ^ places.toNat ≤ 2 ^ 53 → d.roundTo places = d))) ∧
    (2 ^ 31 ≤ places.toNat → |toRat d.value| < 2 ^ 52 →
      (2 ^ 32 - places.toNat ≤ 308 →
        (d.roundTo places).value.isFinite = true ∧
        |toRat (d.roundTo places).value - toRat d.value| ≤
          (1 + 1 / 2 ^ 42) * (10 ^ (2 ^ 32 - places.toNat) / 2 + |toRat d.value| / 2 ^ 52)) ∧
      (308 < 2 ^ 32 - places.toNat → (d.roundTo places).value.isNaN = true)) := by
  refine ⟨d.roundTo_unit places, fun large => ?_, fun small => ?_, fun wrapped small => ?_⟩
  · rw [abs_toRat] at large
    exact Dimension.roundTo_of_kept
      ((d.roundTo_value places).trans (roundAt_of_large finite large _))
  · have exponent := placesExponent_of_lt small
    have value : (d.roundTo places).value = roundAt places.toNat d.value := by
      rw [d.roundTo_value, exponent]
    have near := roundAt_places finite places.toNat
    have kept (same : roundAt places.toNat d.value = d.value) : d.roundTo places = d :=
      Dimension.roundTo_of_kept (value.trans same)
    rw [value]
    refine ⟨near.1, near.2, fun beyond => kept (roundAt_of_lt finite beyond), fun integral => ?_⟩
    have whole := roundAt_whole finite integral places.toNat
    exact ⟨whole.1, fun short => kept (whole.2 short)⟩
  · have exponent := placesExponent_of_le wrapped
    have bound : places.toNat < 2 ^ 32 := places.toNat_lt
    have value : (d.roundTo places).value = roundAt (-(2 ^ 32 - places.toNat : ℕ)) d.value := by
      rw [d.roundTo_value, exponent]
    rw [abs_toRat] at small
    rw [value]
    refine ⟨fun within => ?_, fun beyond => isNaN_roundAt finite beyond small⟩
    exact roundAt_near finite (scale_tens (by omega) within)

/-- Seven comes back with two places, stays near seven with a hundred, and becomes a number of tens
with the largest count of places. -/
theorem Dimension.roundTo_near_seven :
    (⟨Scalar.ofNat 7, "px"⟩ : Dimension Float).roundTo 2 = ⟨Scalar.ofNat 7, "px"⟩ ∧
      |key ((⟨Scalar.ofNat 7, "px"⟩ : Dimension Float).roundTo 100).value -
        key (Scalar.ofNat 7)| ≤ 1 ∧
      |toRat ((⟨Scalar.ofNat 7, "px"⟩ : Dimension Float).roundTo 4294967295).value - 7| ≤
        (1 + 1 / 2 ^ 42) * (10 ^ 1 / 2 + 7 / 2 ^ 52) := by
  have whole := denotes_ofNat (show 7 ≤ 2 ^ 53 by decide)
  have finite := whole.finite
  have size : |toRat (Scalar.ofNat 7)| = 7 := by
    rw [abs_toRat, size_of_whole whole.units_eq]
    rfl
  have value : toRat (Scalar.ofNat 7) = 7 := by
    rw [toRat_eq, isNegative_ofNat, size_of_whole whole.units_eq]
    rfl
  have two := (Dimension.roundTo_near ⟨Scalar.ofNat 7, "px"⟩ 2 finite).2.2.1 (by decide)
  have hundred := (Dimension.roundTo_near ⟨Scalar.ofNat 7, "px"⟩ 100 finite).2.2.1 (by decide)
  have tens := (Dimension.roundTo_near ⟨Scalar.ofNat 7, "px"⟩ 4294967295 finite).2.2.2 (by decide)
  rw [size, value] at tens
  refine ⟨?_, (hundred.2.2.2 whole.isIntegral).1, ((tens (by norm_num)).1 (by decide)).2⟩
  have places : UInt32.toNat 2 = 2 := rfl
  apply (two.2.2.2 whole.isIntegral).2
  rw [size, places]
  norm_num

example : key ((Dimension.plain (Scalar.ofNat 3 : Float)).roundTo 27).value =
    key (Scalar.ofNat 3) + 1 := by decide +kernel

/-- With `2 ^ 32 - 1` places seven is rounded to ten. -/
theorem Dimension.roundTo_moves_whole :
    ¬ ∀ (d : Dimension Float) (places : UInt32), Scalar.isIntegral d.value = true →
      d.roundTo places = d := by
  intro kept
  have tens : (Dimension.plain (Scalar.ofNat 7 : Float)).roundTo 4294967295 =
      .plain (Scalar.ofNat 10) := by decide +kernel
  have apart : Dimension.plain (Scalar.ofNat 10 : Float) ≠ .plain (Scalar.ofNat 7) := by
    decide +kernel
  exact apart (tens.symm.trans (kept _ _ (denotes_ofNat (by decide)).isIntegral))

end StyleFunctions
