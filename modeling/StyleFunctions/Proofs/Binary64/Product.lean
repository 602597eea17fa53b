import StyleFunctions.Proofs.Binary64.Whole

/-!
The product and the quotient of two finite doubles are the exact ones, rounded once.
-/

namespace StyleFunctions.Binary64

open Float.Model (Format UnpackedFloat totalExponent)
open Float.Model.UnpackedFloat (Sign)

theorem mul_signOf (p q : Bool) : signOf p * signOf q = signOf (p != q) := by
  cases p <;> cases q <;> rfl

theorem div_signOf (p q : Bool) : signOf p / signOf q = signOf (p != q) := by
  cases p <;> cases q <;> rfl

/-! ### Products -/

theorem placeOf_mul {m n k l : Nat} (first : Normal m k) (second : Normal n l) :
    ((k : Int) - 1074 + ((l : Int) - 1074)) ≤
      (placeOf (m * n) ((k : Int) - 1074 + ((l : Int) - 1074)) : Int) - 1074 := by
  rcases first with ⟨mPos, _, mLeading⟩
  rcases second with ⟨nPos, _, nLeading⟩
  unfold placeOf
  -- One leading bit is enough, and without any both numbers are below the smallest place.
  have long (leading : 2 ^ 52 ≤ m * n) : 52 ≤ (m * n).log2 :=
    (Nat.le_log2 (Nat.ne_of_gt (Nat.mul_pos mPos nPos))).mpr leading
  rcases mLeading with leading | rfl
  · have := long (Nat.le_trans leading (Nat.le_mul_of_pos_right m nPos))
    omega
  · rcases nLeading with leading | rfl
    · have := long (Nat.le_trans leading (Nat.le_mul_of_pos_left n mPos))
      omega
    · omega

theorem mul_finite {p q : Bool} {m n k l : Nat} (mPos : 0 < m) (nPos : 0 < n)
    (first : Normal m k) (second : Normal n l) :
    (UnpackedFloat.pack Format.binary64
      (UnpackedFloat.mul Format.binary64 (.finite (signOf p) m ((k : Int) - 1074) mPos)
        (.finite (signOf q) n ((l : Int) - 1074) nPos))).toNat =
      (if p != q then 2 ^ 63 else 0) + bitsOfRatio (m * 2 ^ k * (n * 2 ^ l)) one := by
  rcases one_eq with ⟨place, high, unit⟩
  obtain ⟨e, exponent⟩ : ∃ e : Int, (k : Int) - 1074 + ((l : Int) - 1074) = e := ⟨_, rfl⟩
  have low := placeOf_mul first second
  have same : bitsOfRatio (numeratorOf (m * n) e) (1 * denominatorOf e) =
      bitsOfRatio (m * 2 ^ k * (n * 2 ^ l)) one := by
    apply bitsOfRatio_eq_of_ratio (Nat.mul_pos Nat.one_pos (denominatorOf_pos e)) one_pos
    have exponents : (e + 1074).toNat + place = k + l + (-(e + 1074)).toNat := by omega
    calc
      numeratorOf (m * n) e * one = m * n * 2 ^ ((e + 1074).toNat + place) := by
        rw [unit, Nat.pow_add, ← Nat.mul_assoc]
        rfl
      _ = m * n * (2 ^ k * 2 ^ l) * denominatorOf e := by
        rw [exponents, Nat.pow_add, Nat.pow_add, ← Nat.mul_assoc]
        rfl
      _ = m * 2 ^ k * (n * 2 ^ l) * (1 * denominatorOf e) := by
        rw [Nat.one_mul, Nat.mul_mul_mul_comm]
  unfold UnpackedFloat.mul
  dsimp only
  rw [exponent] at low ⊢
  rw [mul_signOf, ← same]
  exact pack_roundWithAccuracy (p != q) Nat.one_pos (extends_exact _)
    (.inl (Nat.mul_pos mPos nPos)) low

theorem bitsOfRatio_zero {den : Nat} (pos : 0 < den) : bitsOfRatio 0 den = 0 :=
  bitsOfRatio_of_lt_half pos

theorem mul_parts {p q : Bool} {a b : Nat} {f g : UnpackedFloat} (first : Parts p a f)
    (second : Parts q b g) (left : a < infinityBits) (right : b < infinityBits) :
    (UnpackedFloat.pack Format.binary64 (UnpackedFloat.mul Format.binary64 f g)).toNat =
      (if p != q then 2 ^ 63 else 0) + bitsOfRatio (unitsOfBits a * unitsOfBits b) one := by
  have none : unitsOfBits 0 = 0 := rfl
  have zero (s t : Bool) :
      (UnpackedFloat.pack Format.binary64 (.zero (signOf s * signOf t))).toNat =
        (if s != t then 2 ^ 63 else 0) + bitsOfRatio 0 one := by
    rw [mul_signOf, bitsOfRatio_zero one_pos]
    exact components_toNat (s != t) 0 0
  cases first with
  | notANumber above => omega
  | infinity infinite => omega
  | zero nothing =>
      rw [nothing, none, Nat.zero_mul]
      cases second with
      | notANumber above => omega
      | infinity infinite => omega
      | zero _ => exact zero p q
      | finite _ _ _ _ => exact zero p q
  | finite mPos mNormal bits _ =>
      cases second with
      | notANumber above => omega
      | infinity infinite => omega
      | zero nothing =>
          rw [nothing, none, Nat.mul_zero]
          exact zero p q
      | finite nPos nNormal otherBits _ =>
          rw [bits, otherBits, unitsOfBits_parts mNormal, unitsOfBits_parts nNormal]
          exact mul_finite mPos nPos mNormal nNormal

/-! ### Quotients -/

/-- The place that a quotient is divided at: the lower of the two that the operands ask for and the
one that the result is rounded at, as far as the latter is known beforehand. -/
def dividedAt (m k n l : Nat) : Int :=
  min ((k : Int) - l) (max ((m.log2 : Int) + k - (n.log2 + l) - 53) (-1074))

theorem dividedAt_eq (m k n l : Nat) :
    min ((k : Int) - 1074 - ((l : Int) - 1074))
      (Format.binary64.targetExponent
        (totalExponent m ((k : Int) - 1074) - totalExponent n ((l : Int) - 1074))) =
      dividedAt m k n l := by
  have precision : (Format.binary64.mantissaBits : Int) = 53 := by decide
  have least : Format.binary64.minExponent = -1074 := by decide
  rw [Format.targetExponent, precision, least, totalExponent, totalExponent, dividedAt]
  omega

/-- A quotient has all its binary places, or is divided at the smallest place. -/
theorem le_quotient {m n k l : Nat} (nPos : 0 < n) (first : Normal m k) :
    dividedAt m k n l ≤ -1074 ∨
      2 ^ 52 ≤ m * 2 ^ ((k : Int) - l - dividedAt m k n l).toNat / n := by
  have log : m.log2 < 53 := (Nat.log2_lt (Nat.ne_of_gt first.pos)).mpr first.below
  by_cases above : -1074 < dividedAt m k n l
  · have moved : m.log2 + ((k : Int) - l - dividedAt m k n l).toNat = 52 + (n.log2 + 1) := by
      unfold dividedAt at above ⊢
      omega
    right
    rw [Nat.le_div_iff_mul_le nPos]
    calc
      2 ^ 52 * n ≤ 2 ^ 52 * 2 ^ (n.log2 + 1) :=
        Nat.mul_le_mul_left _ (Nat.le_of_lt Nat.lt_log2_self)
      _ = 2 ^ m.log2 * 2 ^ ((k : Int) - l - dividedAt m k n l).toNat := by
        rw [← Nat.pow_add, ← Nat.pow_add, moved]
      _ ≤ m * 2 ^ ((k : Int) - l - dividedAt m k n l).toNat :=
        Nat.mul_le_mul_right _ (Nat.log2_self_le (Nat.ne_of_gt first.pos))
  · exact .inl (Int.not_lt.mp above)

theorem div_finite {p q : Bool} {m n k l : Nat} (mPos : 0 < m) (nPos : 0 < n)
    (normal : Normal m k) :
    (UnpackedFloat.pack Format.binary64
      (UnpackedFloat.div Format.binary64 (.finite (signOf p) m ((k : Int) - 1074) mPos)
        (.finite (signOf q) n ((l : Int) - 1074) nPos))).toNat =
      (if p != q then 2 ^ 63 else 0) + bitsOfRatio (m * 2 ^ k * one) (n * 2 ^ l) := by
  rcases one_eq with ⟨place, high, unit⟩
  obtain ⟨e, exponent⟩ : ∃ e, dividedAt m k n l = e := ⟨_, rfl⟩
  obtain ⟨a, up⟩ : ∃ a, ((k : Int) - l - e).toNat = a := ⟨_, rfl⟩
  have room : e ≤ (k : Int) - l := exponent ▸ Int.min_le_left ..
  have filled := le_quotient (l := l) nPos normal
  rw [exponent, up] at filled
  have shift : ((k : Int) - 1074 - ((l : Int) - 1074) - e).toNat = a := by omega
  have reach : n ≤ m * 2 ^ a ∨ e ≤ -1074 := by
    rcases filled with lowest | long
    · exact .inr lowest
    · have pos : 0 < m * 2 ^ a / n := by omega
      exact .inl (Nat.div_pos_iff.mp pos).2
  have low : e ≤ (placeOf (m * 2 ^ a / n) e : Int) - 1074 := by
    unfold placeOf
    rcases filled with lowest | long
    · omega
    · have log : 52 ≤ (m * 2 ^ a / n).log2 := (Nat.le_log2 (by omega)).mpr long
      omega
  have same : bitsOfRatio (numeratorOf (m * 2 ^ a) e) (n * denominatorOf e) =
      bitsOfRatio (m * 2 ^ k * one) (n * 2 ^ l) := by
    apply bitsOfRatio_eq_of_ratio (Nat.mul_pos nPos (denominatorOf_pos e))
      (Nat.mul_pos nPos (Nat.two_pow_pos l))
    have exponents : a + (e + 1074).toNat + l = k + place + (-(e + 1074)).toNat := by omega
    calc
      numeratorOf (m * 2 ^ a) e * (n * 2 ^ l) = m * n * 2 ^ (a + (e + 1074).toNat + l) := by
        rw [numeratorOf, Nat.pow_add, Nat.pow_add, Nat.mul_assoc m, Nat.mul_mul_mul_comm]
      _ = m * 2 ^ k * one * (n * denominatorOf e) := by
        rw [exponents, Nat.pow_add, Nat.pow_add, Nat.mul_mul_mul_comm, ← Nat.mul_assoc m, unit]
        rfl
  unfold UnpackedFloat.div UnpackedFloat.divCore
  dsimp only
  rw [dividedAt_eq, exponent, shift, Nat.shiftLeft_eq, div_signOf, ← same]
  exact pack_roundWithAccuracy (p != q) nPos (extends_quotient _ nPos) reach low

theorem div_parts {p q : Bool} {a b : Nat} {f g : UnpackedFloat} (first : Parts p a f)
    (second : Parts q b g) (left : a < infinityBits) (right : b < infinityBits) (pos : 0 < b) :
    (UnpackedFloat.pack Format.binary64 (UnpackedFloat.div Format.binary64 f g)).toNat =
      (if p != q then 2 ^ 63 else 0) + bitsOfRatio (unitsOfBits a * one) (unitsOfBits b) := by
  cases second with
  | notANumber above => omega
  | infinity infinite => omega
  | zero nothing => omega
  | finite nPos nNormal otherBits _ =>
      rw [otherBits, unitsOfBits_parts nNormal]
      cases first with
      | notANumber above => omega
      | infinity infinite => omega
      | zero nothing =>
          have none : unitsOfBits 0 = 0 := rfl
          rw [nothing, none, Nat.zero_mul, bitsOfRatio_zero (Nat.mul_pos nPos (Nat.two_pow_pos _))]
          change (UnpackedFloat.pack Format.binary64 (.zero (signOf p / signOf q))).toNat = _
          rw [div_signOf]
          exact components_toNat (p != q) 0 0
      | finite mPos mNormal bits _ =>
          rw [bits, unitsOfBits_parts mNormal]
          exact div_finite mPos nPos mNormal

/-! ### The operations on doubles -/

variable {x y : Float}

theorem eq_ofMagnitudeBits {negative : Bool} {bits : Nat} (number : bits ≤ infinityBits)
    (same : x.toBits.toNat = (if negative then 2 ^ 63 else 0) + bits) :
    x = ofMagnitudeBits negative bits := by
  apply toBits_inj
  apply UInt64.toNat_inj.mp
  rw [same, toNat_ofMagnitudeBits negative number]

theorem mul_eq (left : x.isFinite = true) (right : y.isFinite = true) :
    x * y = ofRatio (isNegative x != isNegative y) (units x * units y) one := by
  rw [isFinite_iff] at left right
  exact eq_ofMagnitudeBits (bitsOfRatio_le _ _) (mul_parts (parts x) (parts y) left right)

theorem div_eq (left : x.isFinite = true) (right : y.isFinite = true)
    (nonzero : 0 < magnitudeBits y) :
    x / y = ofRatio (isNegative x != isNegative y) (units x * one) (units y) := by
  rw [isFinite_iff] at left right
  exact eq_ofMagnitudeBits (bitsOfRatio_le _ _) (div_parts (parts x) (parts y) left right nonzero)

end StyleFunctions.Binary64
