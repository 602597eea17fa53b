import StyleFunctions.Proofs.Binary64.Rounding

/-!
Decimals as doubles. Rounding sees only the quotient, and the shortcuts for very small and very large
decimals agree with it.
-/

namespace StyleFunctions.Binary64

-- The exponent stays a variable below, for no proof should compute this power.
theorem one_eq : ∃ place, place = 1074 ∧ one = 2 ^ place := ⟨1074, rfl, by rw [one]⟩

theorem bitsOfRatio_of_lt_half {num den : Nat} (small : 2 * num < den) : bitsOfRatio num den = 0 := by
  have below : num < den := by omega
  have shift : shiftOf (num / den) = 0 := by
    rw [Nat.div_eq_of_lt below]
    rfl
  have rounded : roundHalfEven num den = 0 := by
    simp only [roundHalfEven, Nat.div_eq_of_lt below, Nat.mod_eq_of_lt below, small, if_true]
  rw [bitsOfRatio_eq, shift, Nat.pow_zero, Nat.mul_one, rounded]
  rfl

theorem bitsOfRatio_of_le {num place : Nat} (high : 2099 ≤ place) (large : 2 ^ place ≤ num) :
    bitsOfRatio num 1 = infinityBits := by
  have nonzero : num ≠ 0 := Nat.ne_of_gt (Nat.lt_of_lt_of_le (Nat.two_pow_pos place) large)
  have log : place ≤ num.log2 := (Nat.le_log2 nonzero).mpr large
  have places : 2047 ≤ shiftOf (num / 1) := by
    rw [Nat.div_one, shiftOf]
    omega
  rw [bitsOfRatio_eq]
  apply Nat.min_eq_right
  calc
    infinityBits = 2047 * 2 ^ 52 := rfl
    _ ≤ shiftOf (num / 1) * 2 ^ 52 := Nat.mul_le_mul_right _ places
    _ ≤ _ := Nat.le_add_right ..

theorem two_pow_le_ten_pow (n : Nat) : 2 ^ (3 * n) ≤ 10 ^ n := by
  rw [Nat.pow_mul]
  exact Nat.pow_le_pow_left (by decide) n

theorem bitsOfRatio_tiny {d : Decimal} (tiny : d.exponent < -(400 + (d.coefficient.log2 : Int))) :
    bitsOfRatio (d.numerator * one) d.denominator = 0 := by
  rcases one_eq with ⟨place, least, unit⟩
  have numerator : d.numerator = d.coefficient := by
    have flat : d.exponent.toNat = 0 := by omega
    rw [Decimal.numerator, flat, Nat.pow_zero, Nat.mul_one]
  apply bitsOfRatio_of_lt_half
  rw [numerator, unit]
  calc
    2 * (d.coefficient * 2 ^ place) < 2 * (2 ^ (d.coefficient.log2 + 1) * 2 ^ place) := by
      apply Nat.mul_lt_mul_of_pos_left _ (by decide)
      exact Nat.mul_lt_mul_of_pos_right Nat.lt_log2_self (Nat.two_pow_pos place)
    _ = 2 ^ (d.coefficient.log2 + 1 + place + 1) := by
      rw [← Nat.pow_add, Nat.pow_succ 2 (_ + place), Nat.mul_comm]
    _ ≤ 2 ^ (3 * (-d.exponent).toNat) := Nat.pow_le_pow_right (by decide) (by omega)
    _ ≤ d.denominator := two_pow_le_ten_pow _

theorem bitsOfRatio_huge {d : Decimal} (pos : 0 < d.coefficient) (huge : 400 < d.exponent) :
    bitsOfRatio (d.numerator * one) d.denominator = infinityBits := by
  rcases one_eq with ⟨place, least, unit⟩
  have denominator : d.denominator = 1 := by
    have flat : (-d.exponent).toNat = 0 := by omega
    rw [Decimal.denominator, flat, Nat.pow_zero]
  have large : 2 ^ (3 * d.exponent.toNat + place) ≤ d.numerator * 2 ^ place := by
    rw [Nat.pow_add]
    apply Nat.mul_le_mul_right
    calc
      2 ^ (3 * d.exponent.toNat) ≤ 10 ^ d.exponent.toNat := two_pow_le_ten_pow _
      _ ≤ d.numerator := Nat.le_mul_of_pos_left _ pos
  rw [denominator, unit]
  exact bitsOfRatio_of_le (by omega) large

/-- The shortcuts for very small and very large decimals change nothing. -/
theorem ofDecimal_eq (d : Decimal) :
    ofDecimal d = ofRatio d.negative (d.numerator * one) d.denominator := by
  rw [ofDecimal, ofRatio]
  split
  case isTrue tiny =>
    rw [Bool.or_eq_true, decide_eq_true_iff, decide_eq_true_iff] at tiny
    rcases tiny with zero | tiny
    · have nothing : d.numerator = 0 := by rw [Decimal.numerator, zero, Nat.zero_mul]
      rw [nothing, Nat.zero_mul, bitsOfRatio_of_lt_half d.denominator_pos]
    · rw [bitsOfRatio_tiny tiny]
  case isFalse nonzero =>
    rw [Bool.or_eq_true, decide_eq_true_iff, decide_eq_true_iff, not_or] at nonzero
    split
    case isTrue huge => rw [bitsOfRatio_huge (Nat.pos_of_ne_zero nonzero.1) huge]
    case isFalse => rfl

/-- Decimals of one value and one sign are the same double. -/
theorem ofDecimal_eq_of_value {c d : Decimal} (sign : c.negative = d.negative)
    (value : c.numerator * d.denominator = d.numerator * c.denominator) :
    ofDecimal c = ofDecimal d := by
  have bits : bitsOfRatio (c.numerator * one) c.denominator =
      bitsOfRatio (d.numerator * one) d.denominator := by
    apply bitsOfRatio_eq_of_ratio c.denominator_pos d.denominator_pos
    rw [Nat.mul_right_comm, value, Nat.mul_right_comm]
  rw [ofDecimal_eq, ofDecimal_eq, ofRatio, ofRatio, sign, bits]

end StyleFunctions.Binary64
