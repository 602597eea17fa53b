import StyleFunctions.Color.Rgba
import StyleFunctions.Proofs.Binary64.Nearest

/-! The bytes that color channels are written as when they are doubles. -/

namespace StyleFunctions

namespace Rgba

open Binary64

/-- The byte that a channel is written as: the nearest whole number, restricted to the bytes. An
infinite channel gives the first or the last of them, and what is no number gives zero. -/
inductive ByteOf (x : Float) : Nat → Prop
  | finite {n : Int} : x.isFinite = true → NearestWhole x n → ByteOf x (min 255 n.toNat)
  | infinite : magnitudeBits x = infinityBits → ByteOf x (if isNegative x then 0 else 255)
  | notANumber : x.isNaN = true → ByteOf x 0

variable {x : Float}

theorem ByteOf.unique {m n : Nat} (first : ByteOf x m) (second : ByteOf x n) : m = n := by
  have below (finite : x.isFinite = true) : magnitudeBits x < infinityBits :=
    (isFinite_iff x).mp finite
  have above (nan : x.isNaN = true) : infinityBits < magnitudeBits x := (isNaN_iff x).mp nan
  cases first with
  | finite finite near =>
      cases second with
      | finite _ other => rw [near.unique other]
      | infinite infinite => exact absurd infinite (Nat.ne_of_lt (below finite))
      | notANumber nan => exact absurd (above nan) (Nat.lt_asymm (below finite))
  | infinite infinite =>
      cases second with
      | finite finite _ => exact absurd infinite (Nat.ne_of_lt (below finite))
      | infinite _ => rfl
      | notANumber nan => exact absurd infinite (Nat.ne_of_gt (above nan))
  | notANumber nan =>
      cases second with
      | finite finite _ => exact absurd (above nan) (Nat.lt_asymm (below finite))
      | infinite infinite => exact absurd infinite (Nat.ne_of_gt (above nan))
      | notANumber _ => rfl

/-- A channel restricted to the bytes. -/
def bounded (x : Float) : Float := Scalar.clamp (Scalar.ofNat 0) (Scalar.ofNat 255) x

theorem byte_toNat {n : Nat} (small : n ≤ 255)
    (value : Binary64.toNat (bounded (Binary64.round x)) = n) :
    (byte x).toNat = n := by
  have converted : byte x = .ofNat (Binary64.toNat (bounded (Binary64.round x))) := rfl
  rw [converted, value, UInt8.toNat_ofNat']
  exact Nat.mod_eq_of_lt (by omega)

theorem toNat_bounded (number : x.isNaN = false) :
    Binary64.toNat (bounded x) =
      if key x < 0 then 0
      else if ((bitsOfRatio (255 * one) 1 : Nat) : Int) < key x then 255 else Binary64.toNat x := by
  have least : key (Scalar.ofNat 0) = 0 := by
    rw [key_ofNat, Nat.zero_mul]
    rfl
  have zero : Binary64.toNat (Scalar.ofNat 0 : Float) = 0 := (denotes_ofNat (by decide)).toNat_eq
  have full : Binary64.toNat (Scalar.ofNat 255 : Float) = 255 :=
    (denotes_ofNat (by decide)).toNat_eq
  simp only [bounded, Scalar.clamp, lt_iff number (isNaN_ofNat 0), lt_iff (isNaN_ofNat 255) number,
    least, key_ofNat, apply_ite Binary64.toNat, zero, full]

theorem toNat_bounded_ofWhole (negative : Bool) (n : Nat) :
    Binary64.toNat (bounded (ofWhole negative n)) = if negative then 0 else min 255 n := by
  rw [toNat_bounded (isNaN_ofWhole negative n), key_ofWhole]
  cases negative with
  | true =>
      have nothing : Binary64.toNat (ofWhole true n) = 0 := by
        have sign : isNegative (ofWhole true n) = true :=
          isNegative_ofMagnitudeBits true (bitsOfRatio_le _ 1)
        rw [Binary64.toNat, sign, Bool.not_true, Bool.and_false]
        rfl
      have above :
          ¬ ((bitsOfRatio (255 * one) 1 : Nat) : Int) < -(bitsOfRatio (n * one) 1 : Nat) := by
        omega
      rw [signed, if_pos rfl, if_pos rfl, nothing, if_neg above, ite_self]
  | false =>
      rw [signed, if_neg Bool.false_ne_true, if_neg Bool.false_ne_true, if_neg (by omega)]
      rcases Nat.lt_or_ge n 256 with small | large
      · have bound :=
          bitsOfRatio_mono Nat.one_pos (Nat.mul_le_mul_right one (Nat.le_of_lt_succ small))
        rw [if_neg (by omega), toNat_ofWhole (by omega), Nat.min_eq_right (by omega)]
      · have bound := bitsOfRatio_mono Nat.one_pos (Nat.mul_le_mul_right one large)
        have next : bitsOfRatio (255 * one) 1 < bitsOfRatio (256 * one) 1 := by decide +kernel
        rw [if_pos (by omega), Nat.min_eq_left (by omega)]

theorem byte_finite (finite : x.isFinite = true) :
    (byte x).toNat = if isNegative x then 0 else min 255 (roundedWhole x) := by
  apply byte_toNat (by split <;> omega)
  rw [round_finite finite, toNat_bounded_ofWhole]

theorem byte_infinite (infinite : magnitudeBits x = infinityBits) :
    (byte x).toNat = if isNegative x then 0 else 255 := by
  have stays : Binary64.round x = x := by
    rw [Binary64.round, mapWhole, if_neg]
    rw [isFinite_iff, infinite]
    exact Nat.lt_irrefl _
  have below : bitsOfRatio (255 * one) 1 < infinityBits := by decide +kernel
  apply byte_toNat (by split <;> omega)
  rw [stays, toNat_bounded (isNaN_of_magnitudeBits_le (Nat.le_of_eq infinite)), key, infinite,
    signed]
  split
  case isTrue => rw [if_pos (by omega)]
  case isFalse => rw [if_neg (by omega), if_pos (by omega)]

theorem byte_notANumber (nan : x.isNaN = true) : (byte x).toNat = 0 := by
  have infinite : x.isFinite = false := by
    rw [Bool.eq_false_iff, Ne, isFinite_iff]
    rw [isNaN_iff] at nan
    omega
  have stays : Binary64.round x = x := by
    rw [Binary64.round, mapWhole, infinite, if_neg Bool.false_ne_true]
  have free (y : Float) := nan_not_lt nan y
  apply byte_toNat (Nat.zero_le _)
  rw [stays, bounded, Scalar.clamp, if_neg (free _).1, if_neg (free _).2, Binary64.toNat, infinite,
    Bool.false_and]
  rfl

theorem byteOf_byte (x : Float) : ByteOf x (byte x).toNat := by
  by_cases finite : x.isFinite = true
  · have value : min 255 (signed (isNegative x) (roundedWhole x)).toNat =
        if isNegative x then 0 else min 255 (roundedWhole x) := by
      unfold signed
      split <;> omega
    rw [byte_finite finite, ← value]
    exact .finite finite (nearestWhole_rounded x)
  · by_cases nan : x.isNaN = true
    · rw [byte_notANumber nan]
      exact .notANumber nan
    · have bits : magnitudeBits x = infinityBits := by
        rw [isFinite_iff] at finite
        rw [isNaN_iff] at nan
        omega
      rw [byte_infinite bits]
      exact .infinite bits

/-- A byte is written as itself. -/
theorem byte_ofNat {n : Nat} (small : n ≤ 255) : byte (Scalar.ofNat n : Float) = .ofNat n := by
  have whole : Denotes (Scalar.ofNat n) n := denotes_ofNat (by omega)
  have same : roundedWhole (Scalar.ofNat n) = n := by
    have unit := one_pos
    calc
      roundedWhole (Scalar.ofNat n) = (2 * (n * one) + one) / (2 * one) := by
        rw [roundedWhole, whole.units_eq]
      _ = (one + 2 * one * n) / (2 * one) := by rw [Nat.add_comm, Nat.mul_comm n, Nat.mul_assoc]
      _ = one / (2 * one) + n := Nat.add_mul_div_left _ _ (by omega)
      _ = n := by rw [Nat.div_eq_of_lt (by omega), Nat.zero_add]
  apply UInt8.toNat_inj.mp
  rw [byte_finite whole.finite, isNegative_ofNat, if_neg Bool.false_ne_true, same,
    UInt8.toNat_ofNat']
  omega

end Rgba

end StyleFunctions
