import StyleFunctions.Proofs.Binary64.Exact

/-!
The rounding of floating-point arithmetic. A significand at any binary place is rounded to the bits
that `bitsOfRatio` gives for the number of units it stands for, also when it is the whole part of a
quotient and only the comparison of the rest with a half is kept.
-/

namespace StyleFunctions.Binary64

open Float.Model (Format UnpackedFloat totalExponent)
open Float.Model.UnpackedFloat (Accuracy ExtendedMantissa accuracyOfFraction)

theorem roundHalfEven_mul_left {c : Nat} (pos : 0 < c) (num den : Nat) :
    roundHalfEven (c * num) (c * den) = roundHalfEven num den := by
  have below : 2 * (c * (num % den)) < c * den ↔ 2 * (num % den) < den := by
    rw [Nat.mul_left_comm]
    exact Nat.mul_lt_mul_left pos
  have above : c * den < 2 * (c * (num % den)) ↔ den < 2 * (num % den) := by
    rw [Nat.mul_left_comm 2]
    exact Nat.mul_lt_mul_left pos
  unfold roundHalfEven
  simp only [Nat.mul_div_mul_left _ _ pos, Nat.mul_mod_mul_left, below, above]

/-- Equal quotients are rounded alike. -/
theorem roundHalfEven_eq_of_ratio {a b c d : Nat} (bPos : 0 < b) (dPos : 0 < d)
    (same : a * d = c * b) : roundHalfEven a b = roundHalfEven c d := by
  rw [← roundHalfEven_mul_left dPos a b, ← roundHalfEven_mul_left bPos c d, Nat.mul_comm d a, same,
    Nat.mul_comm c b, Nat.mul_comm d b]

/-- Equal quotients have equal bits. -/
theorem bitsOfRatio_eq_of_ratio {a b c d : Nat} (bPos : 0 < b) (dPos : 0 < d)
    (same : a * d = c * b) : bitsOfRatio a b = bitsOfRatio c d := by
  have quotient : a / b = c / d := by
    calc
      a / b = a * d / (b * d) := (Nat.mul_div_mul_right a b dPos).symm
      _ = c * b / (d * b) := by rw [same, Nat.mul_comm b d]
      _ = c / d := Nat.mul_div_mul_right c d bPos
  have shift := Nat.two_pow_pos (shiftOf (c / d))
  have rounded : roundHalfEven a (b * 2 ^ shiftOf (c / d)) =
      roundHalfEven c (d * 2 ^ shiftOf (c / d)) := by
    apply roundHalfEven_eq_of_ratio (Nat.mul_pos bPos shift) (Nat.mul_pos dPos shift)
    rw [← Nat.mul_assoc, ← Nat.mul_assoc, same]
  rw [bitsOfRatio_eq, bitsOfRatio_eq, quotient, rounded]

/-- What is known of a quotient after some of its binary places were dropped: the whole part, and how
the rest compares with a half. -/
structure Extends (em : ExtendedMantissa) (num den : Nat) : Prop where
  whole : em.mantissa = num / den
  half : em.roundBit = true ↔ den ≤ 2 * (num % den)
  rest : em.stickyBit = true ↔ num % den ≠ 0 ∧ 2 * (num % den) ≠ den

theorem extends_exact (m : Nat) : Extends (.ofMantissaAndAccuracy m .exact) m 1 := by
  refine ⟨(Nat.div_one m).symm, ?_, ?_⟩ <;> simp [ExtendedMantissa.ofMantissaAndAccuracy, Nat.mod_one]

/-- The whole part of a quotient with what division says of the rest. -/
theorem extends_quotient (num : Nat) {den : Nat} (pos : 0 < den) :
    Extends (.ofMantissaAndAccuracy (num / den) (accuracyOfFraction (num % den) den)) num den := by
  unfold accuracyOfFraction
  split
  case isTrue none =>
    exact ⟨rfl, iff_of_false Bool.false_ne_true (by omega),
      iff_of_false Bool.false_ne_true (by omega)⟩
  case isFalse some =>
    cases order : compare (2 * (num % den)) den with
    | lt =>
        have less := Nat.compare_eq_lt.mp order
        exact ⟨rfl, iff_of_false Bool.false_ne_true (by omega), iff_of_true rfl (by omega)⟩
    | eq =>
        have same := Nat.compare_eq_eq.mp order
        exact ⟨rfl, iff_of_true rfl (by omega), iff_of_false Bool.false_ne_true (by omega)⟩
    | gt =>
        have more := Nat.compare_eq_gt.mp order
        exact ⟨rfl, iff_of_true rfl (by omega), iff_of_true rfl (by omega)⟩

theorem extends_shiftRightOne {em : ExtendedMantissa} {num den : Nat} (pos : 0 < den)
    (known : Extends em num den) : Extends em.shiftRightOne num (den * 2) := by
  obtain ⟨whole, half, rest⟩ := known
  have bound := Nat.mod_lt num pos
  have split : num % (den * 2) = num % den + den * (num / den % 2) := Nat.mod_mul
  refine ⟨?_, ?_, ?_⟩
  · rw [← Nat.div_div_eq_div_mul, ← whole]
    rfl
  · change (em.mantissa % 2 != 0) = true ↔ _
    rw [whole, split, bne_iff_ne]
    rcases Nat.mod_two_eq_zero_or_one (num / den) with even | odd
    · rw [even]
      omega
    · rw [odd]
      omega
  · change (em.roundBit || em.stickyBit) = true ↔ _
    rw [Bool.or_eq_true, half, rest, split]
    rcases Nat.mod_two_eq_zero_or_one (num / den) with even | odd
    · rw [even]
      omega
    · rw [odd]
      omega

theorem extends_shiftRight {em : ExtendedMantissa} {num den : Nat} (pos : 0 < den)
    (known : Extends em num den) (n : Nat) : Extends (em >>> n) num (den * 2 ^ n) := by
  induction n with
  | zero =>
      rw [Nat.pow_zero, Nat.mul_one]
      exact known
  | succ n known =>
      rw [Nat.pow_succ, ← Nat.mul_assoc]
      exact extends_shiftRightOne (Nat.mul_pos pos (Nat.two_pow_pos n)) known

theorem roundedMantissa_eq {em : ExtendedMantissa} {num den : Nat} (pos : 0 < den)
    (known : Extends em num den) : em.roundedMantissa = roundHalfEven num den := by
  obtain ⟨mantissa, roundBit, stickyBit⟩ := em
  obtain ⟨whole, half, rest⟩ := known
  dsimp only at whole half rest
  unfold roundHalfEven
  dsimp only
  rw [← whole]
  cases roundBit with
  | false =>
      have below : 2 * (num % den) < den := by simpa using half
      rw [if_pos below]
      cases stickyBit <;> rfl
  | true =>
      have least : den ≤ 2 * (num % den) := half.mp rfl
      rw [if_neg (Nat.not_lt.mpr least)]
      cases stickyBit with
      | false =>
          have tie : ¬ den < 2 * (num % den) := by
            intro above
            exact Bool.false_ne_true (rest.mpr ⟨by omega, by omega⟩)
          rw [if_neg tie]
          rfl
      | true =>
          have other := (rest.mp rfl).2
          rw [if_pos (by omega)]
          rfl

theorem log2_div_two_pow (m j : Nat) : (m / 2 ^ j).log2 = m.log2 - j := by
  induction j with
  | zero => rw [Nat.pow_zero, Nat.div_one, Nat.sub_zero]
  | succ j ih =>
      have halve (n : Nat) : (n / 2).log2 = n.log2 - 1 := by
        rw [Nat.log2_def n]
        split
        case isTrue => rfl
        case isFalse small =>
          have none : n / 2 = 0 := by omega
          rw [none]
          rfl
      rw [Nat.pow_succ, ← Nat.div_div_eq_div_mul, halve, ih, Nat.sub_sub]

/-- The place at which a significand is rounded, in binary places above one unit. -/
def placeOf (m : Nat) (e : Int) : Nat := (m.log2 + e + 1022).toNat

theorem targetExponent_eq (m : Nat) (e : Int) :
    Format.binary64.targetExponent (totalExponent m e) = placeOf m e - 1074 := by
  have precision : (Format.binary64.mantissaBits : Int) = 53 := by decide
  have least : Format.binary64.minExponent = -1074 := by decide
  rw [Format.targetExponent, precision, least, totalExponent, placeOf]
  omega

/-- The number of units that a significand at a binary place stands for, as a quotient. -/
def numeratorOf (m : Nat) (e : Int) : Nat := m * 2 ^ (e + 1074).toNat

def denominatorOf (e : Int) : Nat := 2 ^ (-(e + 1074)).toNat

theorem denominatorOf_pos (e : Int) : 0 < denominatorOf e := Nat.two_pow_pos _

theorem log2_mul_two_pow_div {num den : Nat} (pos : 0 < den) (large : den ≤ num) (j : Nat) :
    (num * 2 ^ j / den).log2 = (num / den).log2 + j := by
  have nonzero : num / den ≠ 0 := Nat.ne_of_gt (Nat.div_pos large pos)
  have least : 2 ^ (num / den).log2 * den ≤ num :=
    (Nat.le_div_iff_mul_le pos).mp (Nat.log2_self_le nonzero)
  have most : num < 2 ^ ((num / den).log2 + 1) * den :=
    (Nat.div_lt_iff_lt_mul pos).mp Nat.lt_log2_self
  have lower : 2 ^ ((num / den).log2 + j) ≤ num * 2 ^ j / den := by
    rw [Nat.le_div_iff_mul_le pos, Nat.pow_add, Nat.mul_right_comm]
    exact Nat.mul_le_mul_right _ least
  have upper : num * 2 ^ j / den < 2 ^ ((num / den).log2 + j + 1) := by
    rw [Nat.div_lt_iff_lt_mul pos, Nat.add_right_comm, Nat.pow_add, Nat.mul_right_comm]
    exact Nat.mul_lt_mul_of_pos_right most (Nat.two_pow_pos j)
  have filled : num * 2 ^ j / den ≠ 0 :=
    Nat.ne_of_gt (Nat.lt_of_lt_of_le (Nat.two_pow_pos _) lower)
  exact (Nat.log2_eq_iff filled).mpr ⟨lower, upper⟩

/-- The whole part of a quotient shows where it will be rounded, unless it is lost above the
smallest place. -/
theorem shiftOf_quotient {num den : Nat} {e : Int} (pos : 0 < den)
    (reach : den ≤ num ∨ e ≤ -1074) :
    shiftOf (numeratorOf num e / (den * denominatorOf e)) = placeOf (num / den) e := by
  unfold shiftOf placeOf numeratorOf denominatorOf
  rcases Int.le_total (-1074) e with above | below
  · obtain ⟨j, rfl⟩ : ∃ j : Nat, e = j - 1074 := ⟨(e + 1074).toNat, by omega⟩
    have up : ((j : Int) - 1074 + 1074).toNat = j := by omega
    have down : (-((j : Int) - 1074 + 1074)).toNat = 0 := by omega
    have log : (num * 2 ^ j / den).log2 = (num / den).log2 + j := by
      rcases reach with large | lowest
      · exact log2_mul_two_pow_div pos large j
      · have flat : j = 0 := by omega
        rw [flat, Nat.pow_zero, Nat.mul_one, Nat.add_zero]
    rw [up, down, Nat.pow_zero, Nat.mul_one, log]
    omega
  · obtain ⟨j, rfl⟩ : ∃ j : Nat, e = -j - 1074 := ⟨(-(e + 1074)).toNat, by omega⟩
    have up : (-(j : Int) - 1074 + 1074).toNat = 0 := by omega
    have down : (-(-(j : Int) - 1074 + 1074)).toNat = j := by omega
    rw [up, down, Nat.pow_zero, Nat.mul_one, ← Nat.div_div_eq_div_mul, log2_div_two_pow]
    omega

/-- A significand moved down to its place. -/
theorem shiftToTargetExponent_eq {m k : Nat} {e : Int} (accuracy : Accuracy)
    (place : placeOf m e = k) (low : e ≤ (k : Int) - 1074) :
    UnpackedFloat.shiftToTargetExponent Format.binary64 m e accuracy =
      (ExtendedMantissa.ofMantissaAndAccuracy m accuracy >>> ((k : Int) - 1074 - e).toNat,
        (k : Int) - 1074) := by
  have reach : e + (((k : Int) - 1074 - e).toNat : Int) = (k : Int) - 1074 := by omega
  unfold UnpackedFloat.shiftToTargetExponent UnpackedFloat.shiftToExponent
  rw [targetExponent_eq, place]
  dsimp only
  rw [reach]

theorem placeOf_normal {m k : Nat} (normal : Normal m k) : placeOf m ((k : Int) - 1074) = k := by
  obtain ⟨pos, small, leading⟩ := normal
  have high := (Nat.log2_lt (Nat.ne_of_gt pos)).mpr small
  unfold placeOf
  rcases leading with leading | rfl
  · have log := log2_significand leading small
    omega
  · omega

/-- The last step of rounding: a significand that grew to `2 ^ 53` goes up by one place. -/
theorem pack_rounded (negative : Bool) {m k : Nat} (small : m ≤ 2 ^ 53)
    (leading : 2 ^ 52 ≤ m ∨ k = 0) :
    let shifted := UnpackedFloat.shiftToTargetExponent Format.binary64 m ((k : Int) - 1074) .exact
    (UnpackedFloat.pack Format.binary64
      (if zero : shifted.1.mantissa = 0 then .zero (signOf negative)
        else .finite (signOf negative) shifted.1.mantissa shifted.2
          (Nat.pos_of_ne_zero zero))).toNat =
      (if negative then 2 ^ 63 else 0) + min (k * 2 ^ 52 + m) infinityBits := by
  intro shifted
  rcases Nat.eq_zero_or_pos m with rfl | pos
  · have place : k = 0 := by omega
    subst place
    exact components_toNat negative 0 0
  · rcases Nat.lt_or_eq_of_le small with below | rfl
    · have normal : Normal m k := ⟨pos, below, leading⟩
      have value : shifted = (⟨m, false, false⟩, (k : Int) - 1074) := by
        have none : ((k : Int) - 1074 - ((k : Int) - 1074)).toNat = 0 := by omega
        have moved := shiftToTargetExponent_eq .exact (placeOf_normal normal) (Int.le_refl _)
        rw [none] at moved
        exact moved
      rw [value, dif_neg (Nat.ne_of_gt pos)]
      exact pack_normal pos normal rfl
    · have place : placeOf (2 ^ 53) ((k : Int) - 1074) = k + 1 := by
        rw [placeOf, Nat.log2_two_pow]
        omega
      have one : (((k + 1 : Nat) : Int) - 1074 - ((k : Int) - 1074)).toNat = 1 := by omega
      have value : shifted = (⟨2 ^ 52, false, false⟩, ((k + 1 : Nat) : Int) - 1074) := by
        have moved := shiftToTargetExponent_eq .exact place (by omega)
        rw [one] at moved
        exact moved
      have normal : Normal (2 ^ 52) (k + 1) := ⟨by decide, by decide, .inl (Nat.le_refl _)⟩
      have bits : k * 2 ^ 52 + 2 ^ 53 = (k + 1) * 2 ^ 52 + 2 ^ 52 := by omega
      rw [value, dif_neg (Nat.ne_of_gt normal.pos), bits]
      exact pack_normal normal.pos normal rfl

/-- Rounding a quotient, of which the whole part and the accuracy are known at a binary place, gives
the bits of the nearest double. -/
theorem pack_roundWithAccuracy (negative : Bool) {num den m : Nat} {e : Int} {accuracy : Accuracy}
    (pos : 0 < den) (known : Extends (.ofMantissaAndAccuracy m accuracy) num den)
    (reach : den ≤ num ∨ e ≤ -1074) (low : e ≤ (placeOf m e : Int) - 1074) :
    (UnpackedFloat.pack Format.binary64
      (UnpackedFloat.roundWithAccuracy Format.binary64 (signOf negative) m e accuracy)).toNat =
      (if negative then 2 ^ 63 else 0) +
        bitsOfRatio (numeratorOf num e) (den * denominatorOf e) := by
  obtain ⟨k, place⟩ : ∃ k, placeOf m e = k := ⟨_, rfl⟩
  obtain ⟨r, down⟩ : ∃ r, ((k : Int) - 1074 - e).toNat = r := ⟨_, rfl⟩
  rw [place] at low
  have whole : m = num / den := by
    rw [← known.whole]
    rcases accuracy with _ | _ | _ | _ <;> rfl
  have scale : 0 < den * denominatorOf e := Nat.mul_pos pos (denominatorOf_pos e)
  have shift : shiftOf (numeratorOf num e / (den * denominatorOf e)) = k := by
    rw [shiftOf_quotient pos reach, ← whole, place]
  have first := shiftToTargetExponent_eq accuracy place low
  rw [down] at first
  have significand :
      (ExtendedMantissa.ofMantissaAndAccuracy m accuracy >>> r).roundedMantissa =
        roundHalfEven (numeratorOf num e) (den * denominatorOf e * 2 ^ k) := by
    have dropped : 0 < den * 2 ^ r := Nat.mul_pos pos (Nat.two_pow_pos r)
    rw [roundedMantissa_eq dropped (extends_shiftRight pos known r)]
    apply roundHalfEven_eq_of_ratio dropped (Nat.mul_pos scale (Nat.two_pow_pos k))
    have exponents : (-(e + 1074)).toNat + k = (e + 1074).toNat + r := by omega
    calc
      num * (den * denominatorOf e * 2 ^ k) = num * den * 2 ^ ((-(e + 1074)).toNat + k) := by
        rw [Nat.pow_add, Nat.mul_assoc den, Nat.mul_assoc]
        rfl
      _ = num * den * 2 ^ ((e + 1074).toNat + r) := by rw [exponents]
      _ = numeratorOf num e * (den * 2 ^ r) := by
        rw [Nat.pow_add, numeratorOf, Nat.mul_mul_mul_comm]
  have high := roundHalfEven_shift_le (numeratorOf num e) scale
  have leading := le_roundHalfEven_shift (numeratorOf num e) scale
  rw [shift] at high leading
  rw [bitsOfRatio_eq, shift]
  unfold UnpackedFloat.roundWithAccuracy
  rw [first]
  dsimp only
  rw [significand]
  apply pack_rounded negative high
  rcases Nat.eq_zero_or_pos k with none | places
  · exact .inr none
  · exact .inl (leading places)

/-- Floating-point rounding gives the bits of the nearest double. -/
theorem pack_round (negative : Bool) {m : Nat} (e : Int) (pos : 0 < m) :
    (UnpackedFloat.pack Format.binary64
      (UnpackedFloat.round Format.binary64 (signOf negative) m e)).toNat =
      (if negative then 2 ^ 63 else 0) + bitsOfRatio (numeratorOf m e) (denominatorOf e) := by
  -- A short significand first gets `a` places more.
  obtain ⟨k, place⟩ : ∃ k, placeOf m e = k := ⟨_, rfl⟩
  obtain ⟨a, up⟩ : ∃ a, (e - ((k : Int) - 1074)).toNat = a := ⟨_, rfl⟩
  have raised : placeOf (m * 2 ^ a) (e - (a : Int)) = k := by
    rw [← place, placeOf, placeOf, log2_mul_two_pow pos]
    omega
  have filled : 1 ≤ m * 2 ^ a := Nat.mul_pos pos (Nat.two_pow_pos a)
  have same :
      bitsOfRatio (numeratorOf (m * 2 ^ a) (e - (a : Int))) (1 * denominatorOf (e - (a : Int))) =
        bitsOfRatio (numeratorOf m e) (denominatorOf e) := by
    have shorter : 0 < 1 * denominatorOf (e - (a : Int)) :=
      Nat.mul_pos Nat.one_pos (denominatorOf_pos _)
    apply bitsOfRatio_eq_of_ratio shorter (denominatorOf_pos e)
    have exponents : a + (e - (a : Int) + 1074).toNat + (-(e + 1074)).toNat =
        (e + 1074).toNat + (-(e - (a : Int) + 1074)).toNat := by omega
    calc
      numeratorOf (m * 2 ^ a) (e - (a : Int)) * denominatorOf e =
          m * 2 ^ (a + (e - (a : Int) + 1074).toNat + (-(e + 1074)).toNat) := by
        rw [Nat.pow_add, Nat.pow_add, ← Nat.mul_assoc, ← Nat.mul_assoc]
        rfl
      _ = numeratorOf m e * (1 * denominatorOf (e - (a : Int))) := by
        rw [exponents, Nat.pow_add, ← Nat.mul_assoc, Nat.one_mul]
        rfl
  rw [UnpackedFloat.round, targetExponent_eq, place]
  unfold UnpackedFloat.decreaseExponent
  dsimp only
  rw [up, Nat.shiftLeft_eq, ← same]
  apply pack_roundWithAccuracy negative Nat.one_pos (extends_exact _) (.inl filled)
  rw [raised]
  omega

end StyleFunctions.Binary64
