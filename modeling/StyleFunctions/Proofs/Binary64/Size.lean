import Mathlib.Algebra.Order.Field.Basic
import Mathlib.Algebra.Order.Ring.Unbundled.Rat
import Mathlib.Data.Rat.Cast.Order
import Mathlib.Tactic.FieldSimp
import Mathlib.Tactic.Linarith
import Mathlib.Tactic.Ring
import StyleFunctions.Proofs.Binary64.Neighbor

/-!
Finite doubles as rational numbers. A product or a quotient is off by one part in `2 ^ 53` of the
exact one, and by half the smallest double where that is more.
-/

namespace StyleFunctions.Binary64

open Float.Model (UnpackedFloat)

/-- The number that a finite double is. -/
def toRat (x : Float) : ℚ := signedUnits x / one

/-- The magnitude of a finite double. -/
def size (x : Float) : ℚ := units x / one

/-- Half of the smallest double. -/
def halfUnit : ℚ := 1 / (2 * one)

theorem one_cast_pos : (0 : ℚ) < one := Nat.cast_pos.mpr one_pos

theorem halfUnit_pos : 0 < halfUnit := one_div_pos.mpr (mul_pos two_pos one_cast_pos)

theorem size_nonneg (x : Float) : 0 ≤ size x := div_nonneg (Nat.cast_nonneg _) (Nat.cast_nonneg _)

theorem size_of_whole {x : Float} {n : Nat} (whole : units x = n * one) : size x = n := by
  rw [size, whole, Nat.cast_mul, mul_div_cancel_right₀ _ one_cast_pos.ne']

theorem signed_cast (negative : Bool) (n : Nat) :
    ((signed negative n : Int) : ℚ) = if negative then -(n : ℚ) else n := by
  cases negative
  · exact Int.cast_natCast n
  · exact (Int.cast_neg _).trans (congrArg _ (Int.cast_natCast n))

theorem toRat_eq (x : Float) : toRat x = if isNegative x then -size x else size x := by
  rw [toRat, signedUnits, signed_cast, size]
  split
  · exact neg_div _ _
  · rfl

theorem abs_toRat (x : Float) : |toRat x| = size x := by
  rw [toRat_eq]
  split
  · rw [abs_neg, abs_of_nonneg (size_nonneg x)]
  · exact abs_of_nonneg (size_nonneg x)

/-- Doubles of one sign are as far apart as their magnitudes. -/
theorem abs_toRat_sub {x y : Float} (sign : isNegative x = isNegative y) :
    |toRat x - toRat y| = |size x - size y| := by
  rw [toRat_eq, toRat_eq, sign]
  split
  · rw [neg_sub_neg, abs_sub_comm]
  · rfl

/-- The units of a rounded quotient are off by half a unit and one part in `2 ^ 53`. -/
theorem units_near {num den : Nat} (pos : 0 < den) (finite : bitsOfRatio num den < infinityBits) :
    |(unitsOfBits (bitsOfRatio num den) : ℚ) - num / den| ≤ 1 / 2 + num / den / 2 ^ 53 := by
  have near := le_of_near (bitsOfRatio_near pos finite) fun places =>
    (Nat.le_div_iff_mul_le pos).mp (two_pow_shiftOf_mul_le places)
  have above : (0 : ℚ) < den := Nat.cast_pos.mpr pos
  have apart : |(unitsOfBits (bitsOfRatio num den) : ℚ) - num / den| =
      (((unitsOfBits (bitsOfRatio num den) * den : Nat) - (num : Int)).natAbs : ℚ) / den := by
    rw [Nat.cast_natAbs, eq_div_iff above.ne', ← abs_of_pos above, ← abs_mul]
    push_cast
    rw [abs_of_pos above, sub_mul, div_mul_cancel₀ _ above.ne']
  rw [apart, div_le_iff₀ above, add_mul, div_right_comm, div_mul_cancel₀ _ above.ne']
  have nonneg : (0 : ℚ) ≤ num / 2 ^ 53 := by positivity
  rcases near with absolute | relative
  · have cast : (2 : ℚ) * ((unitsOfBits (bitsOfRatio num den) * den : Nat) - (num : Int)).natAbs ≤
        den := by exact_mod_cast absolute
    linarith
  · have cast : (2 : ℚ) ^ 53 *
        ((unitsOfBits (bitsOfRatio num den) * den : Nat) - (num : Int)).natAbs ≤ num := by
      exact_mod_cast relative
    linarith

/-- A finite double is a given magnitude up to one rounding. -/
def Near (x : Float) (q : ℚ) : Prop := |size x - q| ≤ halfUnit + q / 2 ^ 53

theorem near_of_units {x : Float} {num den : Nat} {q : ℚ} (pos : 0 < den)
    (bits : magnitudeBits x = bitsOfRatio num den) (finite : x.isFinite = true)
    (exact : (num : ℚ) / den = q * one) : Near x q := by
  rw [isFinite_iff, bits] at finite
  have near := units_near pos finite
  have unit := one_cast_pos
  have apart : size x - q = (unitsOfBits (bitsOfRatio num den) - q * one) / one := by
    rw [size, units, bits, sub_div, mul_div_cancel_right₀ _ unit.ne']
  have bound {u : ℚ} (above : 0 < u) :
      1 / (2 * u) + q / 2 ^ 53 = (1 / 2 + q * u / 2 ^ 53) / u := by field_simp
  rw [exact] at near
  rw [Near, halfUnit, apart, bound unit, abs_div, abs_of_pos unit]
  exact div_le_div_of_nonneg_right near unit.le

/-! ### The bounds of the finite doubles -/

/-- What is no more than a finite double is rounded to one. -/
theorem bitsOfRatio_lt_of_le {n num den : Nat} (given : Representable n) (pos : 0 < den)
    (le : num ≤ n * den) : bitsOfRatio num den < infinityBits := by
  have known := bitsOfRatio_representable given
  calc
    bitsOfRatio num den ≤ bitsOfRatio (n * den) den := bitsOfRatio_mono pos le
    _ = bitsOfRatio n 1 := bitsOfRatio_eq_of_ratio pos Nat.one_pos (Nat.mul_one _)
    _ < infinityBits := known.1

/-- Magnitudes up to this one are rounded to finite doubles. -/
def finiteRange : Nat := 3 * 2 ^ 1022

/-- Magnitudes from this one on are rounded to infinity. -/
def infiniteRange : Nat := 2 ^ 1024

-- No proof should compute these powers either.
theorem finiteRange_eq : ∃ place, place = 1022 ∧ finiteRange = 3 * 2 ^ place :=
  ⟨1022, rfl, by rw [finiteRange]⟩

theorem infiniteRange_eq : ∃ place, place = 1024 ∧ infiniteRange = 2 ^ place :=
  ⟨1024, rfl, by rw [infiniteRange]⟩

theorem representable_finiteRange : Representable (finiteRange * one) := by
  obtain ⟨place, high, unit⟩ := one_eq
  obtain ⟨last, few, range⟩ := finiteRange_eq
  have exponents : last + place = 51 + 2045 := by rw [few, high]
  refine ⟨3 * 2 ^ 51, 2045, by decide, Nat.le_refl _, ?_⟩
  rw [unit, range, Nat.mul_assoc, Nat.mul_assoc, ← Nat.pow_add, ← Nat.pow_add, exponents]

/-- A quotient beyond all finite doubles is rounded to infinity. -/
theorem bitsOfRatio_infinity {num den : Nat} (pos : 0 < den)
    (large : infiniteRange * one * den ≤ num) : bitsOfRatio num den = infinityBits := by
  obtain ⟨place, high, unit⟩ := one_eq
  obtain ⟨last, few, range⟩ := infiniteRange_eq
  obtain ⟨k, top⟩ : ∃ k, k = 2046 := ⟨2046, rfl⟩
  have normal : Normal (2 ^ 52) k := ⟨by decide, by decide, .inl (Nat.le_refl _)⟩
  have least : bitsOfRatio (2 ^ 52 * 2 ^ k) 1 = infinityBits := by
    rw [bitsOfRatio_eq, Nat.div_one, shiftOf_normal normal, Nat.one_mul,
      roundHalfEven_mul_self _ (Nat.two_pow_pos k), top]
    rfl
  have same : infiniteRange * one = 2 ^ 52 * 2 ^ k := by
    have exponents : last + place = 52 + k := by rw [few, high, top]
    rw [unit, range, ← Nat.pow_add, ← Nat.pow_add, exponents]
  apply Nat.le_antisymm (bitsOfRatio_le num den)
  calc
    infinityBits = bitsOfRatio (infiniteRange * one) 1 := by rw [same, least]
    _ = bitsOfRatio (infiniteRange * one * den) den :=
      (bitsOfRatio_eq_of_ratio pos Nat.one_pos (Nat.mul_one _)).symm
    _ ≤ bitsOfRatio num den := bitsOfRatio_mono pos large

/-! ### Products and quotients -/

theorem units_pos {x : Float} (nonzero : 0 < magnitudeBits x) : 0 < units x :=
  unitsOfBits_mono nonzero

theorem size_pos_iff {x : Float} : 0 < size x ↔ 0 < magnitudeBits x := by
  have unit := one_cast_pos
  rw [size, div_pos_iff_of_pos_right unit, Nat.cast_pos]
  constructor
  · intro positive
    by_contra zero
    have nothing : units x = 0 := by
      rw [units, Nat.eq_zero_of_not_pos zero]
      rfl
    omega
  · exact units_pos

section

variable {x y : Float} (left : x.isFinite = true) (right : y.isFinite = true)

include left right

theorem magnitudeBits_mul : magnitudeBits (x * y) = bitsOfRatio (units x * units y) one := by
  rw [mul_eq left right, magnitudeBits_ofRatio]

theorem near_mul (finite : (x * y).isFinite = true) : Near (x * y) (size x * size y) := by
  have unit := one_cast_pos
  apply near_of_units one_pos (magnitudeBits_mul left right) finite
  rw [size, size, Nat.cast_mul, mul_assoc, div_mul_cancel₀ _ unit.ne', mul_div_right_comm]

theorem isFinite_mul_of_le (le : size x * size y ≤ finiteRange) : (x * y).isFinite = true := by
  have unit := one_cast_pos
  rw [isFinite_iff, magnitudeBits_mul left right]
  apply bitsOfRatio_lt_of_le representable_finiteRange one_pos
  rw [size, size, div_mul_div_comm, div_le_iff₀ (mul_pos unit unit), ← mul_assoc] at le
  exact_mod_cast le

theorem magnitudeBits_mul_of_le (large : infiniteRange ≤ size x * size y) :
    magnitudeBits (x * y) = infinityBits := by
  have unit := one_cast_pos
  rw [magnitudeBits_mul left right]
  apply bitsOfRatio_infinity one_pos
  rw [size, size, div_mul_div_comm, le_div_iff₀ (mul_pos unit unit), ← mul_assoc] at large
  exact_mod_cast large

/-- A product is off by half a unit, or by one part in `2 ^ 53`. -/
theorem units_mul_near (finite : (x * y).isFinite = true) :
    2 * ((units (x * y) * one : Nat) - ((units x * units y : Nat) : Int)).natAbs ≤ one ∨
      2 ^ 53 * ((units (x * y) * one : Nat) - ((units x * units y : Nat) : Int)).natAbs ≤
        units x * units y := by
  have bits := magnitudeBits_mul left right
  rw [isFinite_iff, bits] at finite
  have near := le_of_near (bitsOfRatio_near one_pos finite) fun places =>
    (Nat.le_div_iff_mul_le one_pos).mp (two_pow_shiftOf_mul_le places)
  rw [← bits] at near
  exact near

/-- Rounding leads no product below a whole number. -/
theorem le_units_mul {n : Nat} (small : n ≤ 2 ^ 53)
    (large : n * one * one ≤ units x * units y) : n * one ≤ units (x * y) := by
  have given := bitsOfRatio_representable (representable_of_le small)
  have least : bitsOfRatio (n * one) 1 ≤ magnitudeBits (x * y) := by
    calc
      bitsOfRatio (n * one) 1 = bitsOfRatio (n * one * one) one :=
        (bitsOfRatio_eq_of_ratio one_pos Nat.one_pos (Nat.mul_one _)).symm
      _ ≤ bitsOfRatio (units x * units y) one := bitsOfRatio_mono one_pos large
      _ = magnitudeBits (x * y) := (magnitudeBits_mul left right).symm
  calc
    n * one = unitsOfBits (bitsOfRatio (n * one) 1) := given.2.symm
    _ ≤ units (x * y) := unitsOfBits_mono least

variable (nonzero : 0 < magnitudeBits y)

include nonzero

theorem magnitudeBits_div : magnitudeBits (x / y) = bitsOfRatio (units x * one) (units y) := by
  rw [div_eq left right nonzero, magnitudeBits_ofRatio]

theorem near_div (finite : (x / y).isFinite = true) : Near (x / y) (size x / size y) := by
  have unit := one_cast_pos
  apply near_of_units (units_pos nonzero) (magnitudeBits_div left right nonzero) finite
  rw [size, size, Nat.cast_mul, div_div_div_cancel_right₀ unit.ne', mul_div_right_comm]

theorem isFinite_div_of_le (le : size x / size y ≤ finiteRange) : (x / y).isFinite = true := by
  have unit := one_cast_pos
  have pos : (0 : ℚ) < units y := Nat.cast_pos.mpr (units_pos nonzero)
  rw [isFinite_iff, magnitudeBits_div left right nonzero]
  apply bitsOfRatio_lt_of_le representable_finiteRange (units_pos nonzero)
  rw [size, size, div_div_div_cancel_right₀ unit.ne', div_le_iff₀ pos] at le
  have scaled := mul_le_mul_of_nonneg_right le unit.le
  rw [mul_right_comm] at scaled
  exact_mod_cast scaled

end

/-! ### The absolute value -/

theorem abs_parts {negative : Bool} {bits : Nat} {f : UnpackedFloat}
    (known : Parts negative bits f) : Parts false bits f.abs := by
  cases known with
  | zero zero => exact .zero zero
  | finite pos normal bits below => exact .finite pos normal bits below
  | infinity infinite => exact .infinity infinite
  | notANumber above => exact .notANumber above

theorem abs_eq {x : Float} (number : magnitudeBits x ≤ infinityBits) :
    Float.abs x = ofMagnitudeBits false (magnitudeBits x) :=
  eq_ofMagnitudeBits number (pack_parts (abs_parts (parts x)) number)

/-- A whole number is compared with the magnitude. -/
theorem ofNat_le_abs_iff {x : Float} (finite : x.isFinite = true) {n : Nat} (small : n ≤ 2 ^ 53) :
    Scalar.ofNat n ≤ Float.abs x ↔ (n : ℚ) ≤ size x := by
  have below := (isFinite_iff x).mp finite
  have whole := denotes_ofNat small
  have absolute := abs_eq (Nat.le_of_lt below)
  have absFinite : (Float.abs x).isFinite = true := by
    rw [isFinite_iff, absolute, magnitudeBits_ofMagnitudeBits _ (Nat.le_of_lt below)]
    exact below
  have value : signedUnits (Float.abs x) = (units x : Int) := by
    rw [signedUnits, units, absolute, magnitudeBits_ofMagnitudeBits _ (Nat.le_of_lt below),
      isNegative_ofMagnitudeBits _ (Nat.le_of_lt below)]
    rfl
  rw [le_iff_signedUnits whole.finite absFinite, whole.value, value, Int.ofNat_le, size,
    le_div_iff₀ one_cast_pos]
  exact_mod_cast Iff.rfl

/-! ### Whole numbers -/

section

variable {x : Float} (finite : x.isFinite = true)

include finite

/-- From `2 ^ 53` on every finite double is whole. -/
theorem exists_whole_of_le (large : 2 ^ 53 * one ≤ units x) : ∃ n, units x = n * one := by
  obtain ⟨place, high, unit⟩ := one_eq
  obtain ⟨c, j, small, bound, value⟩ := representable_units finite
  have above : place ≤ j := by
    by_contra below
    have most : c * 2 ^ j < 2 ^ 53 * 2 ^ place :=
      Nat.mul_lt_mul_of_lt_of_le small (Nat.pow_le_pow_right Nat.two_pos (by omega))
        (Nat.two_pow_pos place)
    rw [value, unit] at large
    omega
  refine ⟨c * 2 ^ (j - place), ?_⟩
  rw [value, unit, Nat.mul_assoc, ← Nat.pow_add, Nat.sub_add_cancel above]

omit finite in
theorem roundedWhole_of_whole {n : Nat} (whole : units x = n * one) : roundedWhole x = n := by
  apply roundedWhole_of_near
  have unit := one_pos
  rw [whole, Int.sub_self]
  exact unit

theorem round_of_whole {n : Nat} (whole : units x = n * one) : round x = x := by
  have bits : bitsOfRatio (n * one) 1 = magnitudeBits x := by
    rw [← whole]
    exact bitsOfRatio_unitsOfBits ((isFinite_iff x).mp finite)
  have number := Nat.le_of_lt ((isFinite_iff x).mp finite)
  calc
    round x = ofRatio (isNegative x) (n * one) 1 := by
      rw [round_finite finite, roundedWhole_of_whole whole]
      rfl
    _ = x := by rw [ofRatio, bits, ofMagnitudeBits_self number]

theorem representable_rounded : Representable (roundedWhole x * one) := by
  rcases Nat.le_total (2 ^ 53 * one) (units x) with large | small
  · obtain ⟨n, whole⟩ := exists_whole_of_le finite large
    rw [roundedWhole_of_whole whole, ← whole]
    exact representable_units finite
  · apply representable_of_le
    have unit := one_pos
    refine Nat.le_of_lt_succ ((Nat.div_lt_iff_lt_mul (by omega)).mpr ?_)
    have double : (2 ^ 53 + 1) * (2 * one) = 2 * (2 ^ 53 * one) + 2 * one := by omega
    omega

/-- The rounded double is the nearest whole number. -/
theorem round_near :
    (round x).isFinite = true ∧ isNegative (round x) = isNegative x ∧
      |size (round x) - size x| ≤ 1 / 2 := by
  have given := representable_rounded finite
  have rounded : round x = ofRatio (isNegative x) (roundedWhole x * one) 1 := round_finite finite
  refine ⟨?_, ?_, ?_⟩
  · rw [rounded]
    exact isFinite_ofRatio given _
  · rw [rounded, isNegative_ofRatio]
  · have unit := one_cast_pos
    have near : 2 * ((units x : Int) - (roundedWhole x * one : Nat)).natAbs ≤ one := by
      have close := nearestWhole_rounded x
      rw [NearestWhole, signed_mul, signedUnits] at close
      unfold signed at close
      split at close <;> omega
    have cast : 2 * |(units x : ℚ) - roundedWhole x * one| ≤ one := by
      have moved : (2 : ℚ) * ((units x : Int) - (roundedWhole x * one : Nat)).natAbs ≤ one := by
        exact_mod_cast near
      rw [Nat.cast_natAbs] at moved
      push_cast at moved
      exact moved
    have whole : size (round x) = roundedWhole x := by
      rw [rounded, size, units_ofRatio, (bitsOfRatio_representable given).2, Nat.cast_mul,
        mul_div_cancel_right₀ _ unit.ne']
    rw [whole, size, abs_sub_comm, ← mul_div_cancel_right₀ (roundedWhole x : ℚ) unit.ne', ← sub_div,
      abs_div, abs_of_pos unit, div_le_iff₀ unit]
    linarith

end

end StyleFunctions.Binary64
