import StyleFunctions.Proofs.Binary64.Product

/-! Products and quotients of doubles that are not finite: with infinities, and of two zeros. -/

namespace StyleFunctions.Binary64

open Float.Model (Format UnpackedFloat)

theorem pack_infinity (negative : Bool) :
    (UnpackedFloat.pack Format.binary64 (.infinity (signOf negative))).toNat =
      (if negative then 2 ^ 63 else 0) + infinityBits :=
  components_toNat negative (-1) 0

theorem pack_zero (negative : Bool) :
    (UnpackedFloat.pack Format.binary64 (.zero (signOf negative))).toNat =
      if negative then 2 ^ 63 else 0 :=
  components_toNat negative 0 0

theorem pack_notANumber :
    infinityBits < (UnpackedFloat.pack Format.binary64 .notANumber).toNat % 2 ^ 63 := by
  decide

section

variable {p q : Bool} {a : Nat} {f g : UnpackedFloat} (first : Parts p a f)
  (infinite : Parts q infinityBits g)

include first infinite

/-- Only a zero turns infinity into no number. -/
theorem mul_infinity_parts (positive : 0 < a) (number : a ≤ infinityBits) :
    (UnpackedFloat.pack Format.binary64 (UnpackedFloat.mul Format.binary64 f g)).toNat =
        (if p != q then 2 ^ 63 else 0) + infinityBits ∧
      (UnpackedFloat.pack Format.binary64 (UnpackedFloat.mul Format.binary64 g f)).toNat =
        (if q != p then 2 ^ 63 else 0) + infinityBits := by
  rw [← pack_infinity, ← pack_infinity, ← mul_signOf, ← mul_signOf]
  cases infinite with
  | zero zero => exact absurd zero (by decide)
  | finite _ _ _ below => exact absurd below (Nat.lt_irrefl _)
  | notANumber above => exact absurd above (Nat.lt_irrefl _)
  | infinity _ =>
      cases first with
      | zero zero => omega
      | notANumber above => omega
      | finite _ _ _ _ => exact ⟨rfl, rfl⟩
      | infinity _ => exact ⟨rfl, rfl⟩

theorem mul_infinity_bits :
    infinityBits ≤
      (UnpackedFloat.pack Format.binary64 (UnpackedFloat.mul Format.binary64 f g)).toNat %
        2 ^ 63 := by
  have nothing := Nat.le_of_lt pack_notANumber
  rcases Nat.eq_zero_or_pos a with zero | positive
  · cases infinite with
    | zero zero => exact absurd zero (by decide)
    | finite _ _ _ below => exact absurd below (Nat.lt_irrefl _)
    | notANumber above => exact absurd above (Nat.lt_irrefl _)
    | infinity _ =>
        cases first with
        | zero _ => exact nothing
        | notANumber above => omega
        | finite pos normal bits _ =>
            have := normal.pos
            omega
        | infinity same => exact absurd (zero.symm.trans same) (by decide)
  · rcases Nat.lt_or_ge infinityBits a with above | number
    · cases first with
      | notANumber _ => exact nothing
      | zero zero => omega
      | finite _ _ _ below => omega
      | infinity same => omega
    · have room : infinityBits < 2 ^ 63 := by decide
      rw [(mul_infinity_parts first infinite positive number).1]
      split <;> omega

/-- A finite number divided by infinity is zero. -/
theorem div_infinity_parts (finite : a < infinityBits) :
    (UnpackedFloat.pack Format.binary64 (UnpackedFloat.div Format.binary64 f g)).toNat =
      if p != q then 2 ^ 63 else 0 := by
  rw [← pack_zero, ← div_signOf]
  cases infinite with
  | zero zero => exact absurd zero (by decide)
  | finite _ _ _ below => exact absurd below (Nat.lt_irrefl _)
  | notANumber above => exact absurd above (Nat.lt_irrefl _)
  | infinity _ =>
      cases first with
      | zero _ => rfl
      | finite _ _ _ _ => rfl
      | infinity same => omega
      | notANumber above => omega

end

theorem div_zero_parts {p q : Bool} {f g : UnpackedFloat} (first : Parts p 0 f)
    (second : Parts q 0 g) :
    infinityBits <
      (UnpackedFloat.pack Format.binary64 (UnpackedFloat.div Format.binary64 f g)).toNat %
        2 ^ 63 := by
  have zero {r : Bool} {h : UnpackedFloat} (parts : Parts r 0 h) : h = .zero (signOf r) := by
    cases parts with
    | zero _ => rfl
    | finite pos normal bits _ =>
        have := normal.pos
        omega
    | infinity same => exact absurd same (by decide)
    | notANumber above => omega
  rw [zero first, zero second]
  exact pack_notANumber

variable {x y : Float}

theorem mul_infinity (infinite : magnitudeBits y = infinityBits) : (x * y).isFinite = false := by
  have bits := mul_infinity_bits (parts x) (infinite ▸ parts y)
  rw [Bool.eq_false_iff, Ne, isFinite_iff, Nat.not_lt]
  exact bits

/-- A positive infinity, whatever positive number it is multiplied with. -/
theorem mul_eq_infinity (left : isNegative x = false) (right : isNegative y = false)
    (leftPos : 0 < magnitudeBits x) (rightPos : 0 < magnitudeBits y)
    (leftNumber : magnitudeBits x ≤ infinityBits) (rightNumber : magnitudeBits y ≤ infinityBits)
    (infinite : magnitudeBits x = infinityBits ∨ magnitudeBits y = infinityBits) :
    x * y = ofMagnitudeBits false infinityBits := by
  apply eq_ofMagnitudeBits (Nat.le_refl _)
  have first := parts x
  have second := parts y
  rw [left] at first
  rw [right] at second
  rcases infinite with same | same
  · exact (mul_infinity_parts second (same ▸ first) rightPos rightNumber).2
  · exact (mul_infinity_parts first (same ▸ second) leftPos leftNumber).1

theorem div_infinity (finite : x.isFinite = true) (infinite : magnitudeBits y = infinityBits) :
    x / y = ofMagnitudeBits (isNegative x != isNegative y) 0 := by
  apply eq_ofMagnitudeBits (Nat.zero_le _)
  exact div_infinity_parts (parts x) (infinite ▸ parts y) ((isFinite_iff x).mp finite)

theorem isNaN_zero_div_zero (left : magnitudeBits x = 0) (right : magnitudeBits y = 0) :
    (x / y).isNaN = true := by
  rw [isNaN_iff]
  exact div_zero_parts (left ▸ parts x) (right ▸ parts y)

end StyleFunctions.Binary64
