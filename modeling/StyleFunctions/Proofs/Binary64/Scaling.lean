import StyleFunctions.Proofs.Binary64.Product

/-! Products with a fraction and quotients by one: signs and the order of doubles are kept. -/

namespace StyleFunctions.Binary64

theorem unitsOfBits_succ {m k : Nat} (normal : Normal m k) :
    unitsOfBits (k * 2 ^ 52 + m + 1) = (m + 1) * 2 ^ k := by
  rcases normal with ⟨pos, below, leading⟩
  rcases Nat.lt_or_ge (m + 1) (2 ^ 53) with small | full
  · rw [Nat.add_assoc]
    exact unitsOfBits_parts ⟨Nat.succ_pos m, small, by omega⟩
  · -- The next significand is a power of two, one place higher.
    have next : m + 1 = 2 ^ 53 := by omega
    have parts : k * 2 ^ 52 + m + 1 = (k + 1) * 2 ^ 52 + 2 ^ 52 := by omega
    have normal : Normal (2 ^ 52) (k + 1) := ⟨by decide, by decide, .inl (Nat.le_refl _)⟩
    calc
      unitsOfBits (k * 2 ^ 52 + m + 1) = 2 ^ 52 * 2 ^ (k + 1) := by
        rw [parts, unitsOfBits_parts normal]
      _ = 2 ^ 53 * 2 ^ k := by
        rw [← Nat.pow_add, ← Nat.pow_add]
        congr 1
        omega
      _ = (m + 1) * 2 ^ k := by rw [next]

theorem unitsOfBits_lt_succ (bits : Nat) : unitsOfBits bits < unitsOfBits (bits + 1) := by
  rcases Nat.eq_zero_or_pos bits with rfl | pos
  · decide
  · rcases exists_normal pos with ⟨m, k, normal, rfl⟩
    rw [unitsOfBits_parts normal, unitsOfBits_succ normal]
    exact Nat.mul_lt_mul_of_pos_right (Nat.lt_succ_self m) (Nat.two_pow_pos k)

theorem unitsOfBits_mono {a b : Nat} (le : a ≤ b) : unitsOfBits a ≤ unitsOfBits b := by
  induction le with
  | refl => exact Nat.le_refl _
  | step _ before => exact Nat.le_trans before (Nat.le_of_lt (unitsOfBits_lt_succ _))

theorem bitsOfRatio_units {bits den : Nat} (pos : 0 < den) (finite : bits < infinityBits) :
    bitsOfRatio (unitsOfBits bits * den) den = bits := by
  calc
    bitsOfRatio (unitsOfBits bits * den) den = bitsOfRatio (unitsOfBits bits) 1 :=
      bitsOfRatio_eq_of_ratio pos Nat.one_pos (Nat.mul_one _)
    _ = bits := bitsOfRatio_unitsOfBits finite

/-- A part of a finite double is finite. -/
theorem bitsOfRatio_part_lt {bits part : Nat} (finite : bits < infinityBits) (most : part ≤ one) :
    bitsOfRatio (unitsOfBits bits * part) one < infinityBits := by
  have below : unitsOfBits bits * part ≤ unitsOfBits bits * one := Nat.mul_le_mul_left _ most
  calc
    bitsOfRatio (unitsOfBits bits * part) one ≤ bitsOfRatio (unitsOfBits bits * one) one :=
      bitsOfRatio_mono one_pos below
    _ = bits := bitsOfRatio_units one_pos finite
    _ < infinityBits := finite

/-- The place of a sign and a magnitude in the total order. -/
def place (negative : Bool) (bits : Nat) : Int := if negative then -1 - bits else bits

theorem place_mono {p q : Bool} {a b : Nat} {f : Nat → Nat} (mono : ∀ {m n}, m ≤ n → f m ≤ f n)
    (le : place p a ≤ place q b) : place p (f a) ≤ place q (f b) := by
  unfold place at *
  cases p with
  | false =>
      cases q with
      | false =>
          have raised : f a ≤ f b := mono (Int.ofNat_le.mp le)
          exact Int.ofNat_le.mpr raised
      | true => simp at le; omega
  | true =>
      cases q with
      | false => simp; omega
      | true =>
          have raised : f b ≤ f a := mono (by simp at le; omega)
          simp
          omega

theorem rank_eq_place (x : Float) : rank x = place (isNegative x) (magnitudeBits x) := rfl

/-- A positive double that is at most one. -/
structure Fraction (c : Float) : Prop where
  finite : c.isFinite = true
  positive : isNegative c = false
  nonzero : 0 < magnitudeBits c
  most : units c ≤ one

namespace Fraction

variable {c d x y : Float}

theorem mul_eq (part : Fraction c) (finite : x.isFinite = true) :
    x * c = ofRatio (isNegative x) (units x * units c) one := by
  rw [Binary64.mul_eq finite part.finite, part.positive, Bool.bne_false]

theorem div_eq (part : Fraction c) (finite : x.isFinite = true) :
    x / c = ofRatio (isNegative x) (units x * one) (units c) := by
  rw [Binary64.div_eq finite part.finite part.nonzero, part.positive, Bool.bne_false]

theorem isFinite_mul (part : Fraction c) (finite : x.isFinite = true) :
    (x * c).isFinite = true := by
  rw [part.mul_eq finite, isFinite_iff, magnitudeBits_ofRatio]
  exact bitsOfRatio_part_lt ((isFinite_iff x).mp finite) part.most

theorem units_pos (part : Fraction c) : 0 < units c := by
  have first := unitsOfBits_mono part.nonzero
  exact first

/-- The magnitude that is left of one after a product and a quotient. -/
def scaledBits (c d : Float) (bits : Nat) : Nat :=
  bitsOfRatio (unitsOfBits (bitsOfRatio (unitsOfBits bits * units c) one) * one) (units d)

theorem scaledBits_mono (part : Fraction d) {m n : Nat} (le : m ≤ n) :
    scaledBits c d m ≤ scaledBits c d n := by
  apply bitsOfRatio_mono part.units_pos
  apply Nat.mul_le_mul_right
  apply unitsOfBits_mono
  apply bitsOfRatio_mono one_pos
  exact Nat.mul_le_mul_right _ (unitsOfBits_mono le)

theorem mul_div_eq (part : Fraction c) (other : Fraction d) (finite : x.isFinite = true) :
    x * c / d = ofMagnitudeBits (isNegative x) (scaledBits c d (magnitudeBits x)) := by
  rw [other.div_eq (part.isFinite_mul finite), part.mul_eq finite, isNegative_ofRatio,
    units_ofRatio]
  rfl

theorem isNaN_mul_div (part : Fraction c) (other : Fraction d) (finite : x.isFinite = true) :
    (x * c / d).isNaN = false := by
  rw [other.div_eq (part.isFinite_mul finite), isNaN_ofRatio]

theorem rank_mul_div (part : Fraction c) (other : Fraction d) (finite : x.isFinite = true) :
    rank (x * c / d) = place (isNegative x) (scaledBits c d (magnitudeBits x)) := by
  have number : scaledBits c d (magnitudeBits x) ≤ infinityBits := bitsOfRatio_le _ _
  rw [part.mul_div_eq other finite, rank_eq_place, isNegative_ofMagnitudeBits _ number,
    magnitudeBits_ofMagnitudeBits _ number]

/-- Scaling does not reverse the order of two doubles; it may make them equal. -/
theorem rank_mul_div_mono (part : Fraction c) (other : Fraction d) (left : x.isFinite = true)
    (right : y.isFinite = true) (le : rank x ≤ rank y) : rank (x * c / d) ≤ rank (y * c / d) := by
  rw [part.rank_mul_div other left, part.rank_mul_div other right]
  exact place_mono (scaledBits_mono other) le

end Fraction

theorem fraction_one : Fraction (Scalar.ofNat 1) := by
  have whole := denotes_ofNat (show 1 ≤ 2 ^ 53 by decide)
  have size : units (Scalar.ofNat 1) = one := by rw [whole.units_eq, Nat.one_mul]
  refine ⟨whole.finite, isNegative_ofNat 1, ?_, Nat.le_of_eq size⟩
  rw [magnitudeBits_ofNat, Nat.pos_iff_ne_zero, Ne, bitsOfRatio_eq_zero, Nat.one_mul]
  exact Nat.ne_of_gt one_pos

/-- Scaling by one changes nothing. -/
theorem mul_one_div_one {x : Float} (finite : x.isFinite = true) :
    x * Scalar.ofNat 1 / Scalar.ofNat 1 = x := by
  have below := (isFinite_iff x).mp finite
  have size : units (Scalar.ofNat 1) = one := by
    rw [(denotes_ofNat (show 1 ≤ 2 ^ 53 by decide)).units_eq, Nat.one_mul]
  have same : Fraction.scaledBits (Scalar.ofNat 1) (Scalar.ofNat 1) (magnitudeBits x) =
      magnitudeBits x := by
    rw [Fraction.scaledBits, size, bitsOfRatio_units one_pos below, bitsOfRatio_units one_pos below]
  rw [fraction_one.mul_div_eq fraction_one finite, same, ofMagnitudeBits_self (Nat.le_of_lt below)]

end StyleFunctions.Binary64
