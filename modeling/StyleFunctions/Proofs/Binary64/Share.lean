import StyleFunctions.Proofs.Binary64.Nearest

/-!
Shares of a whole number. A share is rounded, and so is its product with the whole, yet the nearest
whole number is what was divided.
-/

namespace StyleFunctions.Binary64

/-- The quotient of two whole numbers. -/
theorem ofNat_div {a b : Nat} (left : a ≤ 2 ^ 53) (right : b ≤ 2 ^ 53) (pos : 0 < b) :
    (Scalar.ofNat a / Scalar.ofNat b : Float) = ofRatio false (a * one) b := by
  have first := denotes_ofNat left
  have second := denotes_ofNat right
  have nonzero : 0 < magnitudeBits (Scalar.ofNat b) := by
    rw [magnitudeBits_ofNat, Nat.pos_iff_ne_zero, Ne, bitsOfRatio_eq_zero]
    exact Nat.ne_of_gt (Nat.mul_pos pos one_pos)
  rw [div_eq first.finite second.finite nonzero, isNegative_ofNat, isNegative_ofNat,
    first.units_eq, second.units_eq]
  have same : bitsOfRatio (a * one * one) (b * one) = bitsOfRatio (a * one) b :=
    bitsOfRatio_eq_of_ratio (Nat.mul_pos pos one_pos) pos (by
      rw [Nat.mul_right_comm _ one b, Nat.mul_assoc _ b one])
  exact congrArg (ofMagnitudeBits false) same

theorem bitsOfRatio_whole {n : Nat} (pos : 0 < n) :
    bitsOfRatio (n * one) n = bitsOfRatio (1 * one) 1 :=
  bitsOfRatio_eq_of_ratio pos Nat.one_pos (by rw [Nat.mul_one, Nat.one_mul, Nat.mul_comm])

theorem ofNat_div_self {n : Nat} (small : n ≤ 2 ^ 53) (pos : 0 < n) :
    (Scalar.ofNat n / Scalar.ofNat n : Float) = Scalar.ofNat 1 := by
  rw [ofNat_div small small pos, ofNat_eq]
  exact congrArg (ofMagnitudeBits false) (bitsOfRatio_whole pos)

/-- The product with a whole number. -/
theorem mul_ofNat {x : Float} (finite : x.isFinite = true) {n : Nat} (small : n ≤ 2 ^ 53) :
    x * Scalar.ofNat n = ofRatio (isNegative x) (units x * n) 1 := by
  have whole := denotes_ofNat small
  have same : bitsOfRatio (units x * (n * one)) one = bitsOfRatio (units x * n) 1 :=
    bitsOfRatio_eq_of_ratio one_pos Nat.one_pos (by rw [Nat.mul_one, Nat.mul_assoc])
  rw [mul_eq finite whole.finite, isNegative_ofNat, Bool.bne_false, whole.units_eq]
  exact congrArg (ofMagnitudeBits (isNegative x)) same

theorem near_trans {x y z p q r : Nat} (first : 2 * ((x : Int) - y).natAbs ≤ p)
    (second : 2 * ((y : Int) - z).natAbs ≤ q) (small : p + q < r) :
    2 * ((x : Int) - z).natAbs < r := by
  omega

theorem representable_one : Representable (1 * one) := representable_of_le (by decide)

section

variable {a b : Nat} (pos : 0 < b) (le : a ≤ b)

include pos le

theorem bitsOfRatio_share_le : bitsOfRatio (a * one) b ≤ bitsOfRatio (1 * one) 1 := by
  calc
    bitsOfRatio (a * one) b ≤ bitsOfRatio (b * one) b :=
      bitsOfRatio_mono pos (Nat.mul_le_mul_right one le)
    _ = bitsOfRatio (1 * one) 1 := bitsOfRatio_whole pos

theorem bitsOfRatio_share_lt : bitsOfRatio (a * one) b < infinityBits := by
  have full := bitsOfRatio_representable representable_one
  exact Nat.lt_of_le_of_lt (bitsOfRatio_share_le pos le) full.1

theorem share_le_one : unitsOfBits (bitsOfRatio (a * one) b) ≤ one := by
  have full := bitsOfRatio_representable representable_one
  have share := (unitsOfBits_le_iff (bitsOfRatio_share_lt pos le) full.1).mpr
    (bitsOfRatio_share_le pos le)
  rw [full.2, Nat.one_mul] at share
  exact share

theorem share_mul_le : unitsOfBits (bitsOfRatio (a * one) b) * b ≤ b * one := by
  rw [Nat.mul_comm]
  exact Nat.mul_le_mul_left b (share_le_one pos le)

theorem bitsOfRatio_share_mul_lt (small : b ≤ 2 ^ 53) :
    bitsOfRatio (unitsOfBits (bitsOfRatio (a * one) b) * b) 1 < infinityBits := by
  have whole := bitsOfRatio_representable (representable_of_le small)
  exact Nat.lt_of_le_of_lt (bitsOfRatio_mono Nat.one_pos (share_mul_le pos le)) whole.1

/-- The product of a share with the whole is, up to less than a half, what was divided. -/
theorem share_mul_near (small : b ≤ 2 ^ 50) :
    2 * ((unitsOfBits (bitsOfRatio (unitsOfBits (bitsOfRatio (a * one) b) * b) 1) : Nat) -
      ((a * one : Nat) : Int)).natAbs < one := by
  rcases one_eq with ⟨place, high, unit⟩
  obtain ⟨s, split⟩ : ∃ s, place = 52 + s := ⟨1022, high⟩
  have first := bitsOfRatio_near pos (bitsOfRatio_share_lt pos le)
  have second := bitsOfRatio_near Nat.one_pos (bitsOfRatio_share_mul_lt pos le (by omega))
  rw [Nat.mul_one, Nat.div_one, Nat.one_mul] at second
  have pow : one = 2 ^ 52 * 2 ^ s := by rw [unit, split, Nat.pow_add]
  have step := Nat.two_pow_pos s
  have shareStep : b * 2 ^ shiftOf (a * one / b) ≤ 2 ^ 50 * 2 ^ s := by
    apply Nat.mul_le_mul small (two_pow_shiftOf_le _)
    calc
      a * one / b ≤ b * one / b := Nat.div_le_div_right (Nat.mul_le_mul_right one le)
      _ = one := Nat.mul_div_cancel_left one pos
      _ < 2 ^ (53 + s) := by
        rw [Nat.pow_add, pow]
        omega
  have productStep : 2 ^ shiftOf (unitsOfBits (bitsOfRatio (a * one) b) * b) ≤ 2 ^ 50 * 2 ^ s := by
    rw [← Nat.pow_add]
    apply two_pow_shiftOf_le
    calc
      unitsOfBits (bitsOfRatio (a * one) b) * b ≤ b * one := share_mul_le pos le
      _ ≤ 2 ^ 50 * one := Nat.mul_le_mul_right one small
      _ < 2 ^ (53 + (50 + s)) := by
        rw [Nat.pow_add, Nat.pow_add 2 50, pow]
        omega
  apply near_trans second first
  calc
    _ ≤ 2 ^ 50 * 2 ^ s + 2 ^ 50 * 2 ^ s := Nat.add_le_add productStep shareStep
    _ < 2 ^ 52 * 2 ^ s := by omega
    _ = one := pow.symm

theorem clampUnit_share (small : b ≤ 2 ^ 53) :
    Scalar.clampUnit (Scalar.ofNat a / Scalar.ofNat b : Float) = ofRatio false (a * one) b := by
  have number := isNaN_ofRatio false (a * one) b
  have most := bitsOfRatio_share_le pos le
  have positive : ¬ ofRatio false (a * one) b < Scalar.ofNat 0 := by
    rw [lt_iff number (isNaN_ofNat 0), key_ofRatio, key_ofNat, Nat.zero_mul]
    exact Int.not_lt.mpr (Int.natCast_nonneg _)
  have atMost : ¬ Scalar.ofNat 1 < ofRatio false (a * one) b := by
    rw [lt_iff (isNaN_ofNat 1) number, key_ofRatio, key_ofNat]
    exact Int.not_lt.mpr (Int.ofNat_le.mpr most)
  have limits (x : Float) : Scalar.clampUnit x =
      if x < Scalar.ofNat 0 then Scalar.ofNat 0
      else if Scalar.ofNat 1 < x then Scalar.ofNat 1 else x := rfl
  rw [ofNat_div (Nat.le_trans le small) small pos, limits, if_neg positive, if_neg atMost]

/-- A share of a whole of moderate size comes back from the product with it when this is rounded. -/
theorem round_share (small : b ≤ 2 ^ 50) :
    Scalar.round (Scalar.clampUnit (Scalar.ofNat a / Scalar.ofNat b : Float) * Scalar.ofNat b) =
      ofWhole false a := by
  have wide : b ≤ 2 ^ 53 := by omega
  have share : (ofRatio false (a * one) b).isFinite = true := by
    rw [isFinite_iff, magnitudeBits_ofRatio]
    exact bitsOfRatio_share_lt pos le
  have product : ofRatio false (a * one) b * Scalar.ofNat b =
      ofRatio false (unitsOfBits (bitsOfRatio (a * one) b) * b) 1 := by
    rw [mul_ofNat share wide, isNegative_ofRatio, units_ofRatio]
  have finite : (ofRatio false (unitsOfBits (bitsOfRatio (a * one) b) * b) 1).isFinite = true := by
    rw [isFinite_iff, magnitudeBits_ofRatio]
    exact bitsOfRatio_share_mul_lt pos le wide
  have near := share_mul_near pos le small
  rw [← units_ofRatio false] at near
  calc
    Scalar.round (Scalar.clampUnit (Scalar.ofNat a / Scalar.ofNat b : Float) * Scalar.ofNat b) =
        round (ofRatio false (unitsOfBits (bitsOfRatio (a * one) b) * b) 1) := by
      rw [clampUnit_share pos le wide, product]
      rfl
    _ = ofWhole false a := by
      rw [round_finite finite, isNegative_ofRatio, roundedWhole_of_near near]

end

end StyleFunctions.Binary64
