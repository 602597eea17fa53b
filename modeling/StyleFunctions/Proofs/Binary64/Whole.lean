import StyleFunctions.Proofs.Binary64.Decimal
import StyleFunctions.Proofs.Binary64.Difference

/-! Whole numbers among the doubles: which of them are exact, and which doubles are whole. -/

namespace StyleFunctions.Binary64

open Float.Model (Format UnpackedFloat)

/-- A number of units that a finite double can have: at most 53 binary places, none too high. -/
def Representable (n : Nat) : Prop := ∃ c j, c < 2 ^ 53 ∧ j ≤ 2045 ∧ n = c * 2 ^ j

/-- Moving a significand up as far as there is room gives one that has its top bit. -/
theorem exists_normal_mul {c : Nat} (j : Nat) (pos : 0 < c) (small : c < 2 ^ 53) :
    ∃ m k, Normal m k ∧ k ≤ j ∧ c * 2 ^ j = m * 2 ^ k := by
  have log : c.log2 < 53 := (Nat.log2_lt (Nat.ne_of_gt pos)).mpr small
  have split (s : Nat) (le : s ≤ j) : c * 2 ^ j = c * 2 ^ s * 2 ^ (j - s) := by
    rw [Nat.mul_assoc, ← Nat.pow_add, Nat.add_sub_cancel' le]
  have moved (s : Nat) (room : s ≤ 52 - c.log2) : c * 2 ^ s < 2 ^ 53 := by
    calc
      c * 2 ^ s < 2 ^ (c.log2 + 1) * 2 ^ s :=
        Nat.mul_lt_mul_of_pos_right Nat.lt_log2_self (Nat.two_pow_pos s)
      _ = 2 ^ (c.log2 + 1 + s) := (Nat.pow_add ..).symm
      _ ≤ 2 ^ 53 := Nat.pow_le_pow_right (by decide) (by omega)
  rcases Nat.le_total j (52 - c.log2) with low | high
  · refine ⟨c * 2 ^ j, 0, ⟨Nat.mul_pos pos (Nat.two_pow_pos j), moved j low, .inr rfl⟩, ?_, ?_⟩
    · exact Nat.zero_le j
    · rw [Nat.pow_zero, Nat.mul_one]
  · refine ⟨c * 2 ^ (52 - c.log2), j - (52 - c.log2), ⟨?_, moved _ (Nat.le_refl _), .inl ?_⟩, ?_,
      split _ high⟩
    · exact Nat.mul_pos pos (Nat.two_pow_pos _)
    · calc
        2 ^ 52 = 2 ^ c.log2 * 2 ^ (52 - c.log2) := by
          rw [← Nat.pow_add, Nat.add_sub_cancel' (Nat.le_of_lt_succ log)]
        _ ≤ c * 2 ^ (52 - c.log2) := Nat.mul_le_mul_right _ (Nat.log2_self_le (Nat.ne_of_gt pos))
    · exact Nat.sub_le ..

/-- No rounding happens to a representable number. -/
theorem bitsOfRatio_representable {n : Nat} (given : Representable n) :
    bitsOfRatio n 1 < infinityBits ∧ unitsOfBits (bitsOfRatio n 1) = n := by
  obtain ⟨c, j, small, place, rfl⟩ := given
  rcases Nat.eq_zero_or_pos c with rfl | pos
  · rw [Nat.zero_mul]
    exact ⟨by decide, rfl⟩
  · obtain ⟨m, k, normal, le, same⟩ := exists_normal_mul j pos small
    have below : k * 2 ^ 52 + m < infinityBits := by
      have := normal.below
      unfold infinityBits
      omega
    rw [same, bitsOfRatio_normal normal below]
    exact ⟨below, unitsOfBits_parts normal⟩

theorem representable_units {x : Float} (finite : x.isFinite = true) : Representable (units x) := by
  rw [isFinite_iff] at finite
  rcases Nat.eq_zero_or_pos (magnitudeBits x) with zero | pos
  · refine ⟨0, 0, by decide, by decide, ?_⟩
    rw [units, zero]
    rfl
  · obtain ⟨m, k, normal, bits⟩ := exists_normal pos
    have place : k ≤ 2045 := by
      obtain ⟨_, below, leading⟩ := normal
      unfold infinityBits at finite
      omega
    exact ⟨m, k, normal.below, place, by rw [units, bits, unitsOfBits_parts normal]⟩

/-- The whole part of a representable number is representable. -/
theorem representable_whole {n : Nat} (given : Representable n) : Representable (n / one * one) := by
  obtain ⟨c, j, small, bound, rfl⟩ := given
  obtain ⟨place, high, unit⟩ := one_eq
  rw [unit]
  rcases Nat.le_total place j with above | below
  · refine ⟨c, j, small, bound, ?_⟩
    have split : 2 ^ j = 2 ^ (j - place) * 2 ^ place := by
      rw [← Nat.pow_add, Nat.sub_add_cancel above]
    rw [split, ← Nat.mul_assoc, Nat.mul_div_cancel _ (Nat.two_pow_pos place)]
  · refine ⟨c / 2 ^ (place - j), place, Nat.lt_of_le_of_lt (Nat.div_le_self ..) small, by omega, ?_⟩
    have split : 2 ^ place = 2 ^ (place - j) * 2 ^ j := by
      rw [← Nat.pow_add, Nat.sub_add_cancel below]
    have quotient : c * 2 ^ j / 2 ^ place = c / 2 ^ (place - j) := by
      rw [split, Nat.mul_div_mul_right _ _ (Nat.two_pow_pos j)]
    rw [quotient]

theorem representable_of_le {n : Nat} (bound : n ≤ 2 ^ 53) : Representable (n * one) := by
  obtain ⟨place, high, unit⟩ := one_eq
  rw [unit]
  rcases Nat.lt_or_eq_of_le bound with small | rfl
  · exact ⟨n, place, small, by omega, rfl⟩
  · exact ⟨1, 53 + place, by decide, by omega, by rw [Nat.one_mul, Nat.pow_add]⟩

section

variable {n : Nat} (given : Representable n) (negative : Bool)

include given

theorem isFinite_ofRatio : (ofRatio negative n 1).isFinite = true := by
  rw [isFinite_iff, magnitudeBits_ofRatio]
  exact (bitsOfRatio_representable given).1

theorem signedUnits_ofRatio : signedUnits (ofRatio negative n 1) = signed negative n := by
  rw [signedUnits, units_ofRatio, isNegative_ofRatio, (bitsOfRatio_representable given).2]

end

theorem one_pos : 0 < one := by
  obtain ⟨place, _, unit⟩ := one_eq
  rw [unit]
  exact Nat.two_pow_pos place

theorem lt_iff_signedUnits {x y : Float} (left : x.isFinite = true) (right : y.isFinite = true) :
    x < y ↔ signedUnits x < signedUnits y := by
  rw [lt_iff (isNaN_of_isFinite left) (isNaN_of_isFinite right), ← Int.not_le, ← Int.not_le,
    key_le_iff right left]

theorem le_iff_signedUnits {x y : Float} (left : x.isFinite = true) (right : y.isFinite = true) :
    x ≤ y ↔ signedUnits x ≤ signedUnits y := by
  rw [le_iff (isNaN_of_isFinite left) (isNaN_of_isFinite right), key_le_iff left right]

/-- Truncation is exact and leaves the sign. -/
theorem trunc_finite {x : Float} (finite : x.isFinite = true) :
    (trunc x).isFinite = true ∧
      signedUnits (trunc x) = signed (isNegative x) (units x / one * one) := by
  have whole := representable_whole (representable_units finite)
  have value : trunc x = ofRatio (isNegative x) (units x / one * one) 1 := by
    rw [trunc, mapWhole, if_pos finite]
    rfl
  rw [value]
  exact ⟨isFinite_ofRatio whole _, signedUnits_ofRatio whole _⟩

/-- What is neither a number nor finite differs from itself by no number. -/
theorem isNaN_sub_self {x : Float} (infinite : ¬ x.isFinite = true) : (x - x).isNaN = true := by
  rw [isFinite_iff, Nat.not_lt] at infinite
  have nothing : UnpackedFloat.sub Format.binary64 x.toModel.unpack x.toModel.unpack =
      .notANumber := by
    have known := parts x
    generalize x.toModel.unpack = f at known
    cases known with
    | zero zero =>
        rw [zero] at infinite
        exact absurd infinite (by decide)
    | finite _ _ _ below => exact absurd infinite (Nat.not_le.mpr below)
    | infinity _ => cases isNegative x <;> rfl
    | notANumber _ => rfl
  have bits : (x - x).toBits.toNat =
      (UnpackedFloat.pack Format.binary64
        (UnpackedFloat.sub Format.binary64 x.toModel.unpack x.toModel.unpack)).toNat := rfl
  rw [isNaN_iff, magnitudeBits, bits, nothing]
  decide

theorem isIntegral_iff (x : Float) :
    Scalar.isIntegral x = true ↔ x.isFinite = true ∧ units x / one * one = units x := by
  change (x - trunc x == ofMagnitudeBits false 0) = true ↔ _
  by_cases finite : x.isFinite = true
  · obtain ⟨truncFinite, truncUnits⟩ := trunc_finite finite
    rw [sub_beq_zero finite truncFinite, truncUnits, signedUnits, signed_inj]
    constructor
    · intro same
      exact ⟨finite, same.symm⟩
    · intro both
      exact both.2.symm
  · have stays : trunc x = x := by rw [trunc, mapWhole, if_neg finite]
    rw [stays, nan_beq (isNaN_sub_self finite)]
    constructor
    · intro impossible
      cases impossible
    · intro both
      exact absurd both.1 finite

/-- A double that is a whole number which is not negative. -/
structure Denotes (x : Float) (n : Nat) : Prop where
  finite : x.isFinite = true
  value : signedUnits x = (n * one : Nat)

theorem ofNat_eq (n : Nat) : (Scalar.ofNat n : Float) = ofRatio false (n * one) 1 := by
  have numerator : (Decimal.ofNat n).numerator = n := Nat.mul_one n
  have denominator : (Decimal.ofNat n).denominator = 1 := rfl
  change ofDecimal (.ofNat n) = _
  rw [ofDecimal_eq, numerator, denominator]
  rfl

@[simp] theorem magnitudeBits_ofNat (n : Nat) :
    magnitudeBits (Scalar.ofNat n) = bitsOfRatio (n * one) 1 := by
  rw [ofNat_eq, magnitudeBits_ofRatio]

@[simp] theorem isNegative_ofNat (n : Nat) : isNegative (Scalar.ofNat n) = false := by
  rw [ofNat_eq, isNegative_ofRatio]

theorem key_ofNat (n : Nat) : key (Scalar.ofNat n) = (bitsOfRatio (n * one) 1 : Nat) := by
  rw [ofNat_eq, key_ofRatio]
  rfl

theorem isNaN_ofNat (n : Nat) : (Scalar.ofNat n : Float).isNaN = false := by
  rw [ofNat_eq, isNaN_ofRatio]

theorem denotes_ofNat {n : Nat} (bound : n ≤ 2 ^ 53) : Denotes (Scalar.ofNat n) n := by
  have given := representable_of_le bound
  rw [ofNat_eq]
  exact ⟨isFinite_ofRatio given false, signedUnits_ofRatio given false⟩

namespace Denotes

variable {x : Float} {n : Nat}

theorem units_eq (whole : Denotes x n) : units x = n * one := by
  have value := whole.value
  unfold signedUnits signed at value
  split at value <;> omega

theorem key_eq (whole : Denotes x n) : key x = (bitsOfRatio (n * one) 1 : Nat) := by
  have bits : bitsOfRatio (n * one) 1 = magnitudeBits x := by
    rw [← whole.units_eq, units, bitsOfRatio_unitsOfBits ((isFinite_iff x).mp whole.finite)]
  rw [bits]
  have value := whole.value
  rw [signedUnits, whole.units_eq] at value
  unfold key signed at *
  split at value
  case isTrue negative =>
    have none : n * one = 0 := by omega
    rw [if_pos negative, ← bits, none]
    rfl
  case isFalse positive => rw [if_neg positive]

theorem isIntegral (whole : Denotes x n) : Scalar.isIntegral x = true := by
  rw [isIntegral_iff, whole.units_eq, Nat.mul_div_cancel n one_pos]
  exact ⟨whole.finite, rfl⟩

theorem toNat_eq (whole : Denotes x n) : toNat x = n := by
  have value := whole.value
  unfold signedUnits signed at value
  rw [toNat, whole.finite, Bool.true_and]
  split at value
  case isTrue negative =>
    have none : n * one = 0 := by omega
    rw [negative, (Nat.mul_eq_zero.mp none).resolve_right (Nat.ne_of_gt one_pos)]
    rfl
  case isFalse positive =>
    rw [Bool.not_eq_true] at positive
    rw [positive, whole.units_eq, Nat.mul_div_cancel n one_pos]
    rfl

/-- A whole number is above no larger one, however this is rounded. -/
theorem not_ofNat_lt (whole : Denotes x n) {count : Nat} (le : n ≤ count) :
    ¬ Scalar.ofNat count < x := by
  rw [lt_iff (isNaN_ofNat count) (isNaN_of_isFinite whole.finite), key_ofNat, whole.key_eq,
    Int.ofNat_lt]
  exact Nat.not_lt.mpr (bitsOfRatio_mono Nat.one_pos (Nat.mul_le_mul_right one le))

theorem le_ofNat_iff (whole : Denotes x n) {count : Nat} (bound : count ≤ 2 ^ 53) :
    x ≤ Scalar.ofNat count ↔ n ≤ count := by
  have counted := denotes_ofNat bound
  rw [le_iff_signedUnits whole.finite counted.finite, whole.value, counted.value, Int.ofNat_le]
  exact Nat.mul_le_mul_right_iff one_pos

theorem ofNat_le_iff (whole : Denotes x n) {count : Nat} (bound : count ≤ 2 ^ 53) :
    Scalar.ofNat count ≤ x ↔ count ≤ n := by
  have counted := denotes_ofNat bound
  rw [le_iff_signedUnits counted.finite whole.finite, whole.value, counted.value, Int.ofNat_le]
  exact Nat.mul_le_mul_right_iff one_pos

theorem one_le_iff (whole : Denotes x n) : Scalar.ofNat 1 ≤ x ↔ 1 ≤ n :=
  whole.ofNat_le_iff (by decide)

end Denotes

theorem one_le_iff_not_lt {x : Float} (finite : x.isFinite = true) :
    Scalar.ofNat 1 ≤ x ↔ ¬ x < Scalar.ofNat 1 := by
  have counted := denotes_ofNat (show 1 ≤ 2 ^ 53 by decide)
  rw [le_iff_signedUnits counted.finite finite, lt_iff_signedUnits finite counted.finite, Int.not_lt]

/-- From zero on, the integral doubles are the whole numbers. -/
theorem exists_denotes_of_nonneg {x : Float} (integral : Scalar.isIntegral x = true)
    (nonneg : Scalar.ofNat 0 ≤ x) : ∃ n, Denotes x n := by
  obtain ⟨finite, whole⟩ := (isIntegral_iff x).mp integral
  have counted := denotes_ofNat (show 0 ≤ 2 ^ 53 by decide)
  rw [le_iff_signedUnits counted.finite finite, counted.value, Nat.zero_mul] at nonneg
  refine ⟨units x / one, finite, ?_⟩
  rw [whole]
  unfold signedUnits signed at nonneg ⊢
  split at nonneg
  case isTrue negative =>
    rw [if_pos negative]
    omega
  case isFalse positive => exact if_neg positive

theorem exists_denotes {x : Float} (integral : Scalar.isIntegral x = true)
    (least : Scalar.ofNat 1 ≤ x) : ∃ n, Denotes x n := by
  have finite := ((isIntegral_iff x).mp integral).1
  have counted := denotes_ofNat (show 1 ≤ 2 ^ 53 by decide)
  have zero := denotes_ofNat (show 0 ≤ 2 ^ 53 by decide)
  apply exists_denotes_of_nonneg integral
  rw [le_iff_signedUnits counted.finite finite, counted.value] at least
  rw [le_iff_signedUnits zero.finite finite, zero.value]
  omega

end StyleFunctions.Binary64
