import StyleFunctions.Proofs.Binary64.Rounding

/-! The difference of two finite doubles is the exact difference of their units, rounded once. -/

namespace StyleFunctions.Binary64

open Float.Model (Format UnpackedFloat)
open Float.Model.UnpackedFloat (Sign)

theorem apply_signOf (negative : Bool) (n : Nat) : (signOf negative).apply n = signed negative n := by
  cases negative <;> rfl

theorem neg_signOf (negative : Bool) : -signOf negative = signOf (!negative) := by
  cases negative <;> rfl

theorem signed_mul (negative : Bool) (m n : Nat) :
    signed negative m * (n : Int) = signed negative (m * n) := by
  cases negative
  · exact (Int.natCast_mul m n).symm
  · rw [signed, if_pos rfl, signed, if_pos rfl, Int.neg_mul, Int.natCast_mul]

theorem natAbs_signed (negative : Bool) (n : Nat) : (signed negative n).natAbs = n := by
  cases negative
  · exact Int.natAbs_natCast n
  · rw [signed, if_pos rfl, Int.natAbs_neg, Int.natAbs_natCast]

theorem signed_inj {negative : Bool} {m n : Nat} : signed negative m = signed negative n ↔ m = n := by
  unfold signed
  split <;> omega

/-- At a place that is a whole number of units, the significand counts multiples of it. -/
theorem pack_round_units (negative : Bool) {m : Nat} (j : Nat) (pos : 0 < m) :
    (UnpackedFloat.pack Format.binary64
      (UnpackedFloat.round Format.binary64 (signOf negative) m ((j : Int) - 1074))).toNat =
      (if negative then 2 ^ 63 else 0) + bitsOfRatio (m * 2 ^ j) 1 := by
  have up : ((j : Int) - 1074 + 1074).toNat = j := by omega
  have down : (-((j : Int) - 1074 + 1074)).toNat = 0 := by omega
  rw [pack_round negative _ pos, numeratorOf, denominatorOf, up, down, Nat.pow_zero]

theorem pack_normalize (n : Int) (j : Nat) :
    (UnpackedFloat.pack Format.binary64
      (UnpackedFloat.normalize Format.binary64 n ((j : Int) - 1074) .positive)).toNat =
      (if decide (n < 0) then 2 ^ 63 else 0) + bitsOfRatio (n.natAbs * 2 ^ j) 1 := by
  unfold UnpackedFloat.normalize
  rcases Int.lt_trichotomy n 0 with below | rfl | above
  · have size : (-n).toNat = n.natAbs := by omega
    rw [Int.compare_eq_lt.mpr below, decide_eq_true below, size]
    exact pack_round_units true j (by omega)
  · rw [Int.natAbs_zero, Nat.zero_mul]
    exact components_toNat false 0 0
  · have size : n.toNat = n.natAbs := by omega
    rw [Int.compare_eq_gt.mpr above, decide_eq_false (Int.not_lt.mpr (Int.le_of_lt above)), size]
    exact pack_round_units false j (by omega)

/-- The common place of two significands is the lower one of theirs. -/
theorem sub_finite {p q : Bool} {m n k l : Nat} (mPos : 0 < m) (nPos : 0 < n) :
    ∃ negative : Bool,
      (UnpackedFloat.pack Format.binary64
        (UnpackedFloat.sub Format.binary64 (.finite (signOf p) m ((k : Int) - 1074) mPos)
          (.finite (signOf q) n ((l : Int) - 1074) nPos))).toNat =
        (if negative then 2 ^ 63 else 0) +
          bitsOfRatio (signed p (m * 2 ^ k) - signed q (n * 2 ^ l)).natAbs 1 := by
  have lower : min ((k : Int) - 1074) ((l : Int) - 1074) = ((min k l : Nat) : Int) - 1074 := by omega
  have left : ((k : Int) - 1074 - (((min k l : Nat) : Int) - 1074)).toNat = k - min k l := by omega
  have right : ((l : Int) - 1074 - (((min k l : Nat) : Int) - 1074)).toNat = l - min k l := by omega
  have scale {a b : Nat} (r : Nat) (le : a ≤ b) : r * 2 ^ (b - a) * 2 ^ a = r * 2 ^ b := by
    rw [Nat.mul_assoc, ← Nat.pow_add, Nat.sub_add_cancel le]
  have size :
      (signed p (m * 2 ^ (k - min k l)) - signed q (n * 2 ^ (l - min k l))).natAbs * 2 ^ min k l =
        (signed p (m * 2 ^ k) - signed q (n * 2 ^ l)).natAbs := by
    calc
      _ = ((signed p (m * 2 ^ (k - min k l)) - signed q (n * 2 ^ (l - min k l))) *
          ((2 ^ min k l : Nat) : Int)).natAbs := by
        rw [Int.natAbs_mul, Int.natAbs_natCast]
      _ = _ := by
        rw [Int.sub_mul, signed_mul, signed_mul, scale m (Nat.min_le_left k l),
          scale n (Nat.min_le_right k l)]
  unfold UnpackedFloat.sub UnpackedFloat.decreaseExponent
  simp only [lower, left, right, Nat.shiftLeft_eq, apply_signOf]
  exact ⟨_, size ▸ pack_normalize _ _⟩

theorem sub_parts {p q : Bool} {a b : Nat} {f g : UnpackedFloat} (first : Parts p a f)
    (second : Parts q b g) (left : a < infinityBits) (right : b < infinityBits) :
    ∃ negative : Bool,
      (UnpackedFloat.pack Format.binary64 (UnpackedFloat.sub Format.binary64 f g)).toNat =
        (if negative then 2 ^ 63 else 0) +
          bitsOfRatio (signed p (unitsOfBits a) - signed q (unitsOfBits b)).natAbs 1 := by
  have none (negative : Bool) : signed negative (unitsOfBits 0) = 0 := by cases negative <;> rfl
  cases first with
  | notANumber above => omega
  | infinity infinite => omega
  | zero zero =>
      subst zero
      rw [none, Int.zero_sub, Int.natAbs_neg, natAbs_signed, bitsOfRatio_unitsOfBits right]
      cases second with
      | notANumber above => omega
      | infinity infinite => omega
      | zero other =>
          subst other
          cases p <;> cases q
          · exact ⟨false, components_toNat false 0 0⟩
          · exact ⟨false, components_toNat false 0 0⟩
          · exact ⟨true, components_toNat true 0 0⟩
          · exact ⟨false, components_toNat false 0 0⟩
      | finite pos normal bits below =>
          refine ⟨!q, ?_⟩
          change (UnpackedFloat.pack Format.binary64
            (.finite (-signOf q) _ _ pos)).toNat = _
          rw [neg_signOf, pack_normal pos normal rfl, ← bits, Nat.min_eq_left (Nat.le_of_lt right)]
  | finite pos normal bits below =>
      cases second with
      | notANumber above => omega
      | infinity infinite => omega
      | zero other =>
          subst other
          rw [none, Int.sub_zero, natAbs_signed, bitsOfRatio_unitsOfBits left]
          exact ⟨p, pack_parts (.finite pos normal bits below) (Nat.le_of_lt left)⟩
      | finite otherPos otherNormal otherBits _ =>
          rw [bits, otherBits, unitsOfBits_parts normal, unitsOfBits_parts otherNormal]
          exact sub_finite pos otherPos

variable {x y : Float}

theorem magnitudeBits_sub (left : x.isFinite = true) (right : y.isFinite = true) :
    magnitudeBits (x - y) = bitsOfRatio (signedUnits x - signedUnits y).natAbs 1 := by
  rw [isFinite_iff] at left right
  obtain ⟨negative, bits⟩ := sub_parts (parts x) (parts y) left right
  have small := bitsOfRatio_le (signedUnits x - signedUnits y).natAbs 1
  have same : (x - y).toBits.toNat =
      (if negative then 2 ^ 63 else 0) + bitsOfRatio (signedUnits x - signedUnits y).natAbs 1 := bits
  have room : infinityBits < 2 ^ 63 := by decide
  rw [magnitudeBits, same]
  split <;> omega

/-- A difference is zero only between equal numbers: the smallest one is not rounded away. -/
theorem sub_beq_zero (left : x.isFinite = true) (right : y.isFinite = true) :
    (x - y == ofMagnitudeBits false 0) = true ↔ signedUnits x = signedUnits y := by
  have bits := magnitudeBits_sub left right
  have none : magnitudeBits (ofMagnitudeBits false 0) = 0 :=
    magnitudeBits_ofMagnitudeBits false (Nat.zero_le _)
  have number : (x - y).isNaN = false :=
    isNaN_of_magnitudeBits_le (bits ▸ bitsOfRatio_le _ 1)
  have zeroNumber : (ofMagnitudeBits false 0).isNaN = false :=
    isNaN_of_magnitudeBits_le (none ▸ Nat.zero_le _)
  rw [beq_iff number zeroNumber, key_eq_zero.mpr none, key_eq_zero, bits, bitsOfRatio_eq_zero,
    Int.natAbs_eq_zero, Int.sub_eq_zero]

end StyleFunctions.Binary64
