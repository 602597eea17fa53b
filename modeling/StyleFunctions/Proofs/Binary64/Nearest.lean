import StyleFunctions.Proofs.Binary64.Product

/-! How far rounding goes: half a step to a double, half of one to a whole number. -/

namespace StyleFunctions.Binary64

theorem roundHalfEven_near (num : Nat) {den : Nat} (pos : 0 < den) :
    2 * ((roundHalfEven num den * den : Nat) - (num : Int)).natAbs ≤ den := by
  have split : den * (num / den) + num % den = num := Nat.div_add_mod num den
  have rest : num % den < den := Nat.mod_lt num pos
  have lower : num / den * den = den * (num / den) := Nat.mul_comm _ _
  have upper : (num / den + 1) * den = den * (num / den) + den := by
    rw [Nat.add_mul, Nat.one_mul, lower]
  unfold roundHalfEven
  dsimp only
  split
  case isTrue => omega
  case isFalse =>
    split
    case isTrue => omega
    case isFalse =>
      rcases Nat.mod_two_eq_zero_or_one (num / den) with even | odd
      · rw [even, Nat.add_zero]
        omega
      · rw [odd]
        omega

/-- The units of a rounded quotient: a multiple of the step at its place. -/
theorem unitsOfBits_bitsOfRatio {num den : Nat} (pos : 0 < den)
    (below : bitsOfRatio num den < infinityBits) :
    unitsOfBits (bitsOfRatio num den) =
      roundHalfEven num (den * 2 ^ shiftOf (num / den)) * 2 ^ shiftOf (num / den) := by
  have high := roundHalfEven_shift_le num pos
  have low := le_roundHalfEven_shift num pos
  rw [bitsOfRatio_eq] at below ⊢
  generalize roundHalfEven num (den * 2 ^ shiftOf (num / den)) = r at *
  generalize shiftOf (num / den) = k at *
  have small : k * 2 ^ 52 + r < infinityBits := by omega
  rw [Nat.min_eq_left (Nat.le_of_lt small)]
  have leading : 2 ^ 52 ≤ r ∨ k = 0 := by omega
  rcases Nat.eq_zero_or_pos r with rfl | filled
  · have flat : k = 0 := by omega
    rw [flat]
    rfl
  · rcases Nat.lt_or_eq_of_le high with short | rfl
    · exact unitsOfBits_parts ⟨filled, short, leading⟩
    · have grown : k * 2 ^ 52 + 2 ^ 53 = (k + 1) * 2 ^ 52 + 2 ^ 52 := by omega
      have normal : Normal (2 ^ 52) (k + 1) := ⟨by decide, by decide, .inl (Nat.le_refl _)⟩
      rw [grown, unitsOfBits_parts normal, ← Nat.pow_add, ← Nat.pow_add]
      congr 1
      omega

/-- Rounding a quotient moves it by at most half a step. -/
theorem bitsOfRatio_near {num den : Nat} (pos : 0 < den)
    (below : bitsOfRatio num den < infinityBits) :
    2 * ((unitsOfBits (bitsOfRatio num den) * den : Nat) - (num : Int)).natAbs ≤
      den * 2 ^ shiftOf (num / den) := by
  rw [unitsOfBits_bitsOfRatio pos below, Nat.mul_assoc, Nat.mul_comm _ den]
  exact roundHalfEven_near num (Nat.mul_pos pos (Nat.two_pow_pos _))

theorem two_pow_shiftOf_le {n s : Nat} (below : n < 2 ^ (53 + s)) : 2 ^ shiftOf n ≤ 2 ^ s := by
  apply Nat.pow_le_pow_right Nat.two_pos
  rcases Nat.eq_zero_or_pos n with rfl | pos
  · exact Nat.zero_le s
  · have log := (Nat.log2_lt (Nat.ne_of_gt pos)).mpr below
    unfold shiftOf
    omega

/-- The whole number nearest to a finite double; of two equally near ones the one farther from
zero. -/
def NearestWhole (x : Float) (n : Int) : Prop :=
  2 * (signedUnits x - n * one).natAbs < one ∨
    2 * (signedUnits x - n * one).natAbs = one ∧ (signedUnits x).natAbs < (n * one).natAbs

/-- Half a unit is added to the magnitude before the rest is cut off. -/
def roundedWhole (x : Float) : Nat := (2 * units x + one) / (2 * one)

instance (x : Float) (n : Int) : Decidable (NearestWhole x n) :=
  inferInstanceAs (Decidable (_ ∨ _))

variable {x : Float}

theorem NearestWhole.unique {m n : Int} (first : NearestWhole x m) (second : NearestWhole x n) :
    m = n := by
  have unit := one_pos
  -- Two different ones have the double halfway between them, and the one nearer to zero gives way.
  have apart {a b : Int} (less : a < b) (low : NearestWhole x a) (high : NearestWhole x b) :
      False := by
    have scaled {c d : Int} (le : c ≤ d) : c * one ≤ d * one :=
      Int.mul_le_mul_of_nonneg_right le (Int.natCast_nonneg _)
    have gap : (a + 1) * one ≤ b * one := scaled less
    rw [Int.add_mul, Int.one_mul] at gap
    have sign : 0 * one ≤ a * one ∨ b * one ≤ 0 * one ∨ a * one ≤ -1 * one ∧ 1 * one ≤ b * one := by
      rcases Int.lt_or_le a 0 with negative | positive
      · rcases Int.lt_or_le 0 b with above | below
        · exact .inr (.inr ⟨scaled (by omega), scaled above⟩)
        · exact .inr (.inl (scaled below))
      · exact .inl (scaled positive)
    unfold NearestWhole at low high
    omega
  rcases Int.lt_trichotomy m n with less | same | more
  · exact (apart less first second).elim
  · exact same
  · exact (apart more second first).elim

theorem round_finite (finite : x.isFinite = true) :
    round x = ofWhole (isNegative x) (roundedWhole x) := by
  rw [round, mapWhole, if_pos finite]
  rfl

theorem nearestWhole_rounded (x : Float) :
    NearestWhole x (signed (isNegative x) (roundedWhole x)) := by
  have unit := one_pos
  have double : 0 < 2 * one := Nat.mul_pos Nat.two_pos unit
  have split : 2 * one * roundedWhole x + (2 * units x + one) % (2 * one) = 2 * units x + one :=
    Nat.div_add_mod _ _
  have rest : (2 * units x + one) % (2 * one) < 2 * one := Nat.mod_lt _ double
  have size : 2 * one * roundedWhole x = 2 * (roundedWhole x * one) := by
    rw [Nat.mul_assoc, Nat.mul_comm one]
  rw [NearestWhole, signed_mul, signedUnits]
  unfold signed
  split <;> omega

theorem roundedWhole_of_near {n : Nat}
    (near : 2 * ((units x : Int) - (n * one : Nat)).natAbs < one) : roundedWhole x = n := by
  have unit := one_pos
  have size : (n + 1) * (2 * one) = 2 * (n * one) + 2 * one := by
    rw [Nat.add_mul, Nat.one_mul, Nat.mul_left_comm]
  apply Nat.div_eq_of_lt_le
  · rw [Nat.mul_left_comm]
    omega
  · rw [size]
    omega

theorem key_ofWhole (negative : Bool) (n : Nat) :
    key (ofWhole negative n) = signed negative (bitsOfRatio (n * one) 1) :=
  key_ofRatio negative (n * one) 1

theorem isNaN_ofWhole (negative : Bool) (n : Nat) : (ofWhole negative n).isNaN = false :=
  isNaN_ofRatio negative (n * one) 1

theorem toNat_ofWhole {n : Nat} (small : n ≤ 2 ^ 53) : toNat (ofWhole false n) = n := by
  have same : ofWhole false n = Scalar.ofNat n := (ofNat_eq n).symm
  have whole : Denotes (ofWhole false n) n := same ▸ denotes_ofNat small
  exact whole.toNat_eq

end StyleFunctions.Binary64
