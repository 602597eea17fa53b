import StyleFunctions.Scalar.Double

/-!
The parts of a double. A finite magnitude is `m · 2 ^ k` units with a significand `m` below `2 ^ 53`
that has its top bit, or `k = 0`; its bits are `k · 2 ^ 52 + m`.
-/

namespace StyleFunctions.Binary64

open Float.Model (UnpackedFloat Format)
open Float.Model.UnpackedFloat (Sign)

def signOf (negative : Bool) : Sign := if negative then .negative else .positive

/-- A significand and a binary place that belong together. -/
structure Normal (m k : Nat) : Prop where
  pos : 0 < m
  below : m < 2 ^ 53
  leading : 2 ^ 52 ≤ m ∨ k = 0

theorem log2_significand {m : Nat} (leading : 2 ^ 52 ≤ m) (below : m < 2 ^ 53) : m.log2 = 52 := by
  have nonzero : m ≠ 0 := by omega
  exact (Nat.log2_eq_iff nonzero).mpr ⟨leading, below⟩

/-- The number that a sign and the bits of a magnitude stand for. -/
inductive Parts (negative : Bool) (bits : Nat) : UnpackedFloat → Prop where
  | zero : bits = 0 → Parts negative bits (.zero (signOf negative))
  | finite {m k : Nat} (pos : 0 < m) : Normal m k → bits = k * 2 ^ 52 + m → bits < infinityBits →
      Parts negative bits (.finite (signOf negative) m ((k : Int) - 1074) pos)
  | infinity : bits = infinityBits → Parts negative bits (.infinity (signOf negative))
  | notANumber : infinityBits < bits → Parts negative bits .notANumber

theorem parts_finite {negative : Bool} {bits m k : Nat} {e : Int} (pos : 0 < m) (normal : Normal m k)
    (place : e = (k : Int) - 1074) (parts : bits = k * 2 ^ 52 + m) (below : bits < infinityBits) :
    Parts negative bits (.finite (signOf negative) m e pos) := by
  subst place
  exact .finite pos normal parts below

theorem append_toNat {n k : Nat} (high : BitVec n) (low : BitVec k) :
    (high ++ low).toNat = high.toNat * 2 ^ k + low.toNat := by
  rw [BitVec.toNat_append, ← Nat.shiftLeft_add_eq_or_of_lt low.isLt, Nat.shiftLeft_eq]

theorem mantissa_toNat (b : BitVec 64) :
    (@UnpackedFloat.unpackMantissa Format.binary64 b).toNat = b.toNat % 2 ^ 52 := by
  simp [UnpackedFloat.unpackMantissa, BitVec.extractLsb_toNat]

theorem exponent_toNat (b : BitVec 64) :
    (@UnpackedFloat.unpackExponent Format.binary64 b).toNat = b.toNat % 2 ^ 63 / 2 ^ 52 := by
  simp [UnpackedFloat.unpackExponent, BitVec.extractLsb_toNat, Nat.shiftRight_eq_div_pow]
  omega

theorem sign_toNat (b : BitVec 64) :
    (@UnpackedFloat.unpackSign Format.binary64 b).toNat = b.toNat / 2 ^ 63 := by
  have bound : b.toNat < 2 ^ 64 := b.isLt
  change (b.extractLsb 63 63).toNat = b.toNat / 2 ^ 63
  rw [BitVec.extractLsb_toNat, Nat.shiftRight_eq_div_pow]
  omega

theorem unpackSign_eq (b : BitVec 64) :
    Sign.ofBitVec (@UnpackedFloat.unpackSign Format.binary64 b) =
      signOf (decide (2 ^ 63 ≤ b.toNat)) := by
  have bound : b.toNat < 2 ^ 64 := b.isLt
  have value := sign_toNat b
  by_cases negative : 2 ^ 63 ≤ b.toNat
  · have other : @UnpackedFloat.unpackSign Format.binary64 b ≠ 0#1 := by
      intro same
      rw [same, BitVec.toNat_zero] at value
      omega
    rw [Sign.ofBitVec, if_neg other, decide_eq_true negative]
    rfl
  · have same : @UnpackedFloat.unpackSign Format.binary64 b = 0#1 := by
      apply BitVec.eq_of_toNat_eq
      rw [value, BitVec.toNat_zero]
      omega
    rw [Sign.ofBitVec, if_pos same, decide_eq_false negative]
    rfl

theorem parts_of_bits (b : BitVec 64) :
    Parts (decide (2 ^ 63 ≤ b.toNat)) (b.toNat % 2 ^ 63)
      (UnpackedFloat.unpack Format.binary64 b) := by
  have mantissa := mantissa_toNat b
  have exponent := exponent_toNat b
  have bias : (Format.binary64.exponentBias : Int) + Format.binary64.mantissaBitsWithoutImplicit =
      1075 := by decide
  unfold UnpackedFloat.unpack
  dsimp only
  rw [unpackSign_eq, bias]
  by_cases ones : @UnpackedFloat.unpackExponent Format.binary64 b = -1#11
  · have field : b.toNat % 2 ^ 63 / 2 ^ 52 = 2047 := by rw [← exponent, ones]; rfl
    rw [if_pos ones]
    by_cases zero : @UnpackedFloat.unpackMantissa Format.binary64 b = 0#52
    · have fraction : b.toNat % 2 ^ 52 = 0 := by rw [← mantissa, zero]; rfl
      rw [if_pos zero]
      exact .infinity (by unfold infinityBits; omega)
    · have fraction : b.toNat % 2 ^ 52 ≠ 0 := by
        intro none
        exact zero (BitVec.eq_of_toNat_eq (mantissa.trans none))
      rw [if_neg zero]
      exact .notANumber (by unfold infinityBits; omega)
  · have finite : b.toNat % 2 ^ 63 / 2 ^ 52 ≠ 2047 := by
      intro all
      exact ones (BitVec.eq_of_toNat_eq (exponent.trans all))
    have below : b.toNat % 2 ^ 63 < infinityBits := by unfold infinityBits; omega
    rw [if_neg ones]
    by_cases none : @UnpackedFloat.unpackExponent Format.binary64 b = 0#11
    · have field : b.toNat % 2 ^ 63 / 2 ^ 52 = 0 := by rw [← exponent, none]; rfl
      rw [if_pos none]
      by_cases zero : @UnpackedFloat.unpackMantissa Format.binary64 b = 0#52
      · have fraction : b.toNat % 2 ^ 52 = 0 := by rw [← mantissa, zero]; rfl
        rw [dif_pos zero]
        exact .zero (by omega)
      · have fraction : b.toNat % 2 ^ 52 ≠ 0 := by
          intro empty
          exact zero (BitVec.eq_of_toNat_eq (mantissa.trans empty))
        rw [← mantissa] at fraction
        have small : (@UnpackedFloat.unpackMantissa Format.binary64 b).toNat < 2 ^ 52 := by omega
        rw [dif_neg zero]
        refine parts_finite _ ⟨by omega, by omega, .inr rfl⟩ ?_ (by omega) below
        rw [exponent, field]
        rfl
    · have field : b.toNat % 2 ^ 63 / 2 ^ 52 ≠ 0 := by
        intro empty
        exact none (BitVec.eq_of_toNat_eq (exponent.trans empty))
      have leading : (1#1 ++ @UnpackedFloat.unpackMantissa Format.binary64 b).toNat =
          2 ^ 52 + b.toNat % 2 ^ 52 := by
        rw [append_toNat, mantissa]
        rfl
      obtain ⟨k, place⟩ : ∃ k, b.toNat % 2 ^ 63 / 2 ^ 52 = k + 1 := ⟨_, (Nat.succ_pred field).symm⟩
      have normal : Normal (1#1 ++ @UnpackedFloat.unpackMantissa Format.binary64 b).toNat k :=
        ⟨by omega, by omega, .inl (by omega)⟩
      rw [if_neg none]
      exact parts_finite _ normal (by rw [exponent, place]; omega) (by omega) below

/-- Every double is the number of its sign and its bits. -/
theorem parts (x : Float) : Parts (isNegative x) (magnitudeBits x) x.toModel.unpack :=
  parts_of_bits x.toBits.toBitVec

theorem unitsOfBits_parts {m k : Nat} (normal : Normal m k) :
    unitsOfBits (k * 2 ^ 52 + m) = m * 2 ^ k := by
  obtain ⟨_, below, leading⟩ := normal
  rcases leading with leading | rfl
  · have field : (k * 2 ^ 52 + m) / 2 ^ 52 = k + 1 := by omega
    have fraction : 2 ^ 52 + (k * 2 ^ 52 + m) % 2 ^ 52 = m := by omega
    rw [unitsOfBits, field, fraction, if_neg (Nat.succ_ne_zero k), Nat.add_sub_cancel]
  · rw [Nat.zero_mul, Nat.zero_add, Nat.pow_zero, Nat.mul_one]
    rcases Nat.lt_or_ge m (2 ^ 52) with small | large
    · rw [unitsOfBits, Nat.div_eq_of_lt small, if_pos rfl, Nat.mod_eq_of_lt small]
    · have field : m / 2 ^ 52 = 1 := by omega
      have fraction : 2 ^ 52 + m % 2 ^ 52 = m := by omega
      rw [unitsOfBits, field, fraction]
      exact Nat.mul_one m

theorem components_toNat (negative : Bool) (e : BitVec 11) (m : BitVec 52) :
    (@UnpackedFloat.packComponents Format.binary64 (signOf negative) e m).toNat =
      (if negative then 2 ^ 63 else 0) + (e.toNat * 2 ^ 52 + m.toNat) := by
  have split : (@UnpackedFloat.packComponents Format.binary64 (signOf negative) e m).toNat =
      ((signOf negative).toBitVec ++ e ++ m).toNat := rfl
  rw [split, append_toNat, append_toNat]
  cases negative
  · simp [signOf, Sign.toBitVec]
  · simp [signOf, Sign.toBitVec]
    omega

/-- Packing a finite number keeps its bits, up to those of infinity. -/
theorem pack_normal {negative : Bool} {m k : Nat} {e : Int} (pos : 0 < m) (normal : Normal m k)
    (place : e = (k : Int) - 1074) :
    (UnpackedFloat.pack Format.binary64 (.finite (signOf negative) m e pos)).toNat =
      (if negative then 2 ^ 63 else 0) + min (k * 2 ^ 52 + m) infinityBits := by
  obtain ⟨_, small, leading⟩ := normal
  have bias : (Format.binary64.exponentBias : Int) = 1023 := by decide
  have precision : Format.binary64.mantissaBits = 53 := by decide
  have biased : (e + 1023 + (52 : Nat)).toNat = k + 1 := by omega
  unfold UnpackedFloat.pack
  dsimp only
  rw [bias, precision, biased]
  by_cases overflow : 2 ^ 11 ≤ k + 1 + 1
  · have above : infinityBits ≤ k * 2 ^ 52 + m := by
      unfold infinityBits
      omega
    rw [if_pos overflow, Nat.min_eq_right above]
    exact components_toNat negative (-1) 0
  · have below : k * 2 ^ 52 + m ≤ infinityBits := by
      unfold infinityBits
      omega
    have significand : (BitVec.ofNat 52 m).toNat = m % 2 ^ 52 := BitVec.toNat_ofNat m 52
    have field : (BitVec.ofNat 11 (k + 1)).toNat = k + 1 := by
      rw [BitVec.toNat_ofNat]
      omega
    rw [if_neg overflow, Nat.min_eq_left below]
    by_cases large : 2 ^ 52 ≤ m
    · have log : m.log2 + 1 = 53 := by rw [log2_significand large small]
      rw [if_pos log, components_toNat, field, significand]
      omega
    · have log : ¬ m.log2 + 1 = 53 := by
        have high := (Nat.log2_lt (Nat.ne_of_gt pos)).mpr (Nat.lt_of_not_le large)
        omega
      rw [if_neg log, components_toNat, significand, BitVec.toNat_zero]
      omega

/-- Packing the parts of a number gives its bits back. -/
theorem pack_parts {negative : Bool} {bits : Nat} {f : UnpackedFloat}
    (parts : Parts negative bits f) (number : bits ≤ infinityBits) :
    (UnpackedFloat.pack Format.binary64 f).toNat = (if negative then 2 ^ 63 else 0) + bits := by
  cases parts with
  | zero zero =>
      rw [zero]
      exact components_toNat negative 0 0
  | infinity infinite =>
      rw [infinite]
      exact components_toNat negative (-1) 0
  | notANumber above => omega
  | finite pos normal bits_eq below =>
      rw [pack_normal pos normal rfl, ← bits_eq, Nat.min_eq_left number]

/-- A bit pattern that is no NaN is kept by the double made of it. -/
theorem toBits_ofBits {w : UInt64} (number : w.toNat % 2 ^ 63 ≤ infinityBits) :
    (Float.ofBits w).toBits = w := by
  apply UInt64.toNat_inj.mp
  have packed := pack_parts (parts_of_bits w.toBitVec) number
  have bound : w.toBitVec.toNat < 2 ^ 64 := w.toBitVec.isLt
  calc
    (Float.ofBits w).toBits.toNat =
        (UnpackedFloat.pack Format.binary64
          (UnpackedFloat.unpack Format.binary64 w.toBitVec)).toNat := rfl
    _ = w.toBitVec.toNat := by
      rw [packed]
      by_cases negative : 2 ^ 63 ≤ w.toBitVec.toNat
      · rw [decide_eq_true negative, if_pos rfl]
        omega
      · rw [decide_eq_false negative, if_neg Bool.false_ne_true]
        omega
    _ = w.toNat := rfl

theorem toNat_ofMagnitudeBits (negative : Bool) {bits : Nat} (number : bits ≤ infinityBits) :
    (ofMagnitudeBits negative bits).toBits.toNat = (if negative then 2 ^ 63 else 0) + bits := by
  have small : bits < 2 ^ 63 := Nat.lt_of_le_of_lt number (by decide)
  have value : (UInt64.ofNat (if negative then 2 ^ 63 + bits else bits)).toNat =
      (if negative then 2 ^ 63 else 0) + bits := by
    rw [UInt64.toNat_ofNat']
    split <;> omega
  rw [ofMagnitudeBits, toBits_ofBits, value]
  rw [value]
  split <;> omega

@[simp] theorem magnitudeBits_ofMagnitudeBits (negative : Bool) {bits : Nat}
    (number : bits ≤ infinityBits) : magnitudeBits (ofMagnitudeBits negative bits) = bits := by
  have small : bits < 2 ^ 63 := Nat.lt_of_le_of_lt number (by decide)
  rw [magnitudeBits, toNat_ofMagnitudeBits negative number]
  split <;> omega

@[simp] theorem isNegative_ofMagnitudeBits (negative : Bool) {bits : Nat}
    (number : bits ≤ infinityBits) : isNegative (ofMagnitudeBits negative bits) = negative := by
  have small : bits < 2 ^ 63 := Nat.lt_of_le_of_lt number (by decide)
  rw [isNegative, toNat_ofMagnitudeBits negative number]
  cases negative
  · rw [if_neg Bool.false_ne_true, Nat.zero_add]
    exact decide_eq_false (Nat.not_le.mpr small)
  · rw [if_pos rfl]
    exact decide_eq_true (Nat.le_add_right _ _)

theorem toBits_inj {x y : Float} (same : x.toBits = y.toBits) : x = y := by
  cases x with
  | ofModel left =>
      cases y with
      | ofModel right =>
          cases left
          cases right
          cases same
          rfl

/-- A double that is no NaN is made of its sign and its bits. -/
theorem ofMagnitudeBits_self {x : Float} (number : magnitudeBits x ≤ infinityBits) :
    ofMagnitudeBits (isNegative x) (magnitudeBits x) = x := by
  apply toBits_inj
  apply UInt64.toNat_inj.mp
  have bound : x.toBits.toNat < 2 ^ 64 := x.toBits.toNat_lt
  rw [toNat_ofMagnitudeBits _ number, isNegative, magnitudeBits]
  by_cases negative : 2 ^ 63 ≤ x.toBits.toNat
  · rw [decide_eq_true negative, if_pos rfl]
    omega
  · rw [decide_eq_false negative, if_neg Bool.false_ne_true]
    omega

theorem isFinite_parts {negative : Bool} {bits : Nat} {f : UnpackedFloat}
    (parts : Parts negative bits f) : f.isFinite = true ↔ bits < infinityBits := by
  cases parts with
  | zero zero => exact iff_of_true rfl (zero ▸ by decide)
  | finite pos normal bits below => exact iff_of_true rfl below
  | infinity infinite => exact iff_of_false Bool.false_ne_true (by omega)
  | notANumber above => exact iff_of_false Bool.false_ne_true (by omega)

theorem isNaN_parts {negative : Bool} {bits : Nat} {f : UnpackedFloat}
    (parts : Parts negative bits f) : f.isNaN = true ↔ infinityBits < bits := by
  cases parts with
  | zero zero => exact iff_of_false Bool.false_ne_true (by omega)
  | finite pos normal bits below => exact iff_of_false Bool.false_ne_true (by omega)
  | infinity infinite => exact iff_of_false Bool.false_ne_true (by omega)
  | notANumber above => exact iff_of_true rfl above

theorem isFinite_iff (x : Float) : x.isFinite = true ↔ magnitudeBits x < infinityBits :=
  isFinite_parts (parts x)

theorem isNaN_iff (x : Float) : x.isNaN = true ↔ infinityBits < magnitudeBits x :=
  isNaN_parts (parts x)

end StyleFunctions.Binary64
