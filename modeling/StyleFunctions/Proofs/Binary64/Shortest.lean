import StyleFunctions.Proofs.Binary64.Decimal
import StyleFunctions.Proofs.Decimal.Positional
import StyleFunctions.Scalar.Double

/-! The written form of a double reads back as the double. -/

namespace StyleFunctions.Binary64

open NumberText (Literal)

theorem readsBack_iff {bits coefficient : Nat} {exponent : Int} :
    readsBack bits coefficient exponent = true ↔
      bitsOfRatio ((⟨false, coefficient, exponent⟩ : Decimal).numerator * one)
        (⟨false, coefficient, exponent⟩ : Decimal).denominator = bits :=
  beq_iff_eq

variable {bits : Nat}

/-- A unit has as many decimal places as binary ones, so all digits of a value can be written. -/
theorem readsBack_exact (below : bits < infinityBits) {place : Nat} (unit : one = 2 ^ place) :
    readsBack bits (unitsOfBits bits * 5 ^ place) (-place) = true := by
  have ten : 2 ^ place * 5 ^ place = 10 ^ place := (Nat.mul_pow 2 5 place).symm
  have up : (-(place : Int)).toNat = 0 := by omega
  have down : (- -(place : Int)).toNat = place := by omega
  rw [readsBack_iff, Decimal.numerator, Decimal.denominator]
  dsimp only
  rw [up, down, Nat.pow_zero, Nat.mul_one, unit]
  calc
    bitsOfRatio (unitsOfBits bits * 5 ^ place * 2 ^ place) (10 ^ place) =
        bitsOfRatio (unitsOfBits bits) 1 := by
      apply bitsOfRatio_eq_of_ratio (Nat.pow_pos (by decide)) Nat.one_pos
      rw [Nat.mul_one, Nat.mul_assoc, Nat.mul_comm (5 ^ place), ten]
    _ = bits := bitsOfRatio_unitsOfBits below

/-- Whatever grid the search stops at, what it finds reads back. -/
theorem readsBack_searchGrid (below : bits < infinityBits) (steps : Nat) (exponent : Int) :
    readsBack bits (searchGrid bits steps exponent).1 (searchGrid bits steps exponent).2 = true := by
  -- Each step looks at another grid, so the exponent is not fixed.
  induction steps generalizing exponent with
  | zero => exact readsBack_exact below (by rw [one])
  | succ steps ih =>
      simp only [searchGrid]
      split
      case isTrue low =>
        simp only [Bool.and_eq_true] at low
        exact low.1.2
      case isFalse =>
        split
        case isTrue high => exact high
        case isFalse => exact ih (exponent - 1)

variable {x : Float}

theorem ofDecimal_shortest (finite : x.isFinite = true) :
    ofDecimal ⟨isNegative x, (shortest (magnitudeBits x)).1, (shortest (magnitudeBits x)).2⟩ = x := by
  have below := (isFinite_iff x).mp finite
  have reads := readsBack_searchGrid below 20 (topExponent (magnitudeBits x))
  rw [← shortest, readsBack_iff] at reads
  rw [ofDecimal_eq, ofRatio]
  calc
    _ = ofMagnitudeBits (isNegative x) (magnitudeBits x) := congrArg _ reads
    _ = x := ofMagnitudeBits_self (Nat.le_of_lt below)

/-- The written form of a finite double other than zero is a number that reads as the double. -/
theorem exists_literal_text (finite : x.isFinite = true) (nonzero : magnitudeBits x ≠ 0) :
    ∃ d, Literal (text x) d ∧ ofDecimal d = x := by
  rcases NumberText.exists_literal_positional
    ⟨isNegative x, (shortest (magnitudeBits x)).1, (shortest (magnitudeBits x)).2⟩ with
    ⟨d, literal, sign, value⟩
  have form : text x = (if isNegative x then ['-'] else []) ++
      Decimal.positional (shortest (magnitudeBits x)).1 (shortest (magnitudeBits x)).2 := by
    simp only [text, isNaN_of_isFinite finite, finite, nonzero, Bool.false_eq_true, Bool.not_true,
      if_false]
  refine ⟨d, ?_, ?_⟩
  · rw [form]
    exact literal
  · rw [ofDecimal_eq_of_value sign value, ofDecimal_shortest finite]

end StyleFunctions.Binary64
