import StyleFunctions.Proofs.Binary64.Order

/-!
Rounding to a double: it keeps what a double can hold, and it keeps the order. With both, the bits of
finite doubles are ordered as their units are.
-/

namespace StyleFunctions.Binary64

theorem div_le_roundHalfEven (num den : Nat) : num / den ≤ roundHalfEven num den := by
  unfold roundHalfEven
  dsimp only
  repeat' split
  all_goals omega

theorem roundHalfEven_le (num den : Nat) : roundHalfEven num den ≤ num / den + 1 := by
  unfold roundHalfEven
  dsimp only
  repeat' split
  all_goals omega

theorem roundHalfEven_mono {a b den : Nat} (le : a ≤ b) :
    roundHalfEven a den ≤ roundHalfEven b den := by
  have quotient : a / den ≤ b / den := Nat.div_le_div_right le
  rcases Nat.lt_or_ge (a / den) (b / den) with less | same
  · calc
      roundHalfEven a den ≤ a / den + 1 := roundHalfEven_le a den
      _ ≤ b / den := less
      _ ≤ roundHalfEven b den := div_le_roundHalfEven b den
  · have equal : a / den = b / den := Nat.le_antisymm quotient same
    have remainder : a % den ≤ b % den := by
      have first := Nat.div_add_mod a den
      have second := Nat.div_add_mod b den
      rw [equal] at first
      omega
    unfold roundHalfEven
    rw [equal]
    dsimp only
    repeat' split
    all_goals omega

theorem le_roundHalfEven {c num den : Nat} (pos : 0 < den) (le : c * den ≤ num) :
    c ≤ roundHalfEven num den := by
  rw [← roundHalfEven_mul_self c pos]
  exact roundHalfEven_mono le

theorem roundHalfEven_le_of_le {c num den : Nat} (pos : 0 < den) (le : num ≤ c * den) :
    roundHalfEven num den ≤ c := by
  rw [← roundHalfEven_mul_self c pos]
  exact roundHalfEven_mono le

/-- How many binary places of a number of units are rounded away. -/
def shiftOf (n : Nat) : Nat := n.log2 - 52

theorem shiftOf_mono {a b : Nat} (le : a ≤ b) : shiftOf a ≤ shiftOf b := by
  unfold shiftOf
  rcases Nat.eq_zero_or_pos a with rfl | pos
  · simp
  · have low : 2 ^ a.log2 ≤ b := Nat.le_trans (Nat.log2_self_le (Nat.ne_of_gt pos)) le
    have := (Nat.le_log2 (by omega)).mpr low
    omega

theorem bitsOfRatio_eq (num den : Nat) :
    bitsOfRatio num den =
      min (shiftOf (num / den) * 2 ^ 52 +
        roundHalfEven num (den * 2 ^ shiftOf (num / den))) infinityBits := rfl

theorem bitsOfRatio_le (num den : Nat) : bitsOfRatio num den ≤ infinityBits :=
  Nat.min_le_right ..

/-- The rounded significand has at most 53 places. -/
theorem roundHalfEven_shift_le (num : Nat) {den : Nat} (pos : 0 < den) :
    roundHalfEven num (den * 2 ^ shiftOf (num / den)) ≤ 2 ^ 53 := by
  apply roundHalfEven_le_of_le (Nat.mul_pos pos (Nat.two_pow_pos _))
  have bound : num / den < 2 ^ 53 * 2 ^ shiftOf (num / den) := by
    rw [← Nat.pow_add]
    refine Nat.lt_of_lt_of_le Nat.lt_log2_self (Nat.pow_le_pow_right (by decide) ?_)
    unfold shiftOf
    omega
  rw [Nat.div_lt_iff_lt_mul pos] at bound
  calc
    num ≤ 2 ^ 53 * 2 ^ shiftOf (num / den) * den := Nat.le_of_lt bound
    _ = 2 ^ 53 * (den * 2 ^ shiftOf (num / den)) := by
      rw [Nat.mul_assoc, Nat.mul_comm den]

theorem two_pow_shiftOf_mul_le {n : Nat} (places : 0 < shiftOf n) : 2 ^ 52 * 2 ^ shiftOf n ≤ n := by
  have nonzero : n ≠ 0 := by
    intro zero
    rw [zero] at places
    exact absurd places (by decide)
  unfold shiftOf at places ⊢
  calc
    2 ^ 52 * 2 ^ (n.log2 - 52) = 2 ^ n.log2 := by
      rw [← Nat.pow_add, Nat.add_sub_cancel' (by omega)]
    _ ≤ n := Nat.log2_self_le nonzero

/-- And it has its top bit where places were rounded away. -/
theorem le_roundHalfEven_shift (num : Nat) {den : Nat} (pos : 0 < den)
    (places : 0 < shiftOf (num / den)) :
    2 ^ 52 ≤ roundHalfEven num (den * 2 ^ shiftOf (num / den)) := by
  apply le_roundHalfEven (Nat.mul_pos pos (Nat.two_pow_pos _))
  calc
    2 ^ 52 * (den * 2 ^ shiftOf (num / den)) = 2 ^ 52 * 2 ^ shiftOf (num / den) * den := by
      rw [Nat.mul_assoc, Nat.mul_comm den]
    _ ≤ num / den * den := Nat.mul_le_mul_right den (two_pow_shiftOf_mul_le places)
    _ ≤ num := Nat.div_mul_le_self num den

theorem bitsOfRatio_mono {a b den : Nat} (pos : 0 < den) (le : a ≤ b) :
    bitsOfRatio a den ≤ bitsOfRatio b den := by
  have quotient : a / den ≤ b / den := Nat.div_le_div_right le
  have rounded :
      shiftOf (a / den) * 2 ^ 52 + roundHalfEven a (den * 2 ^ shiftOf (a / den)) ≤
        shiftOf (b / den) * 2 ^ 52 + roundHalfEven b (den * 2 ^ shiftOf (b / den)) := by
    rcases Nat.lt_or_eq_of_le (shiftOf_mono quotient) with less | same
    · have high := roundHalfEven_shift_le a pos
      have low := le_roundHalfEven_shift b pos (by omega)
      omega
    · rw [same]
      exact Nat.add_le_add_left (roundHalfEven_mono le) _
  rw [bitsOfRatio_eq, bitsOfRatio_eq]
  exact Nat.le_min.mpr ⟨Nat.le_trans (Nat.min_le_left ..) rounded, Nat.min_le_right ..⟩

theorem bitsOfRatio_eq_zero {n : Nat} : bitsOfRatio n 1 = 0 ↔ n = 0 := by
  constructor
  · intro zero
    rcases Nat.eq_zero_or_pos n with none | pos
    · exact none
    · have least := bitsOfRatio_mono Nat.one_pos pos
      rw [zero] at least
      exact absurd least (by decide)
  · rintro rfl
    rfl

theorem log2_mul_two_pow {m : Nat} (pos : 0 < m) (j : Nat) :
    (m * 2 ^ j).log2 = m.log2 + j := by
  have nonzero : m ≠ 0 := Nat.ne_of_gt pos
  rw [Nat.log2_eq_iff (Nat.ne_of_gt (Nat.mul_pos pos (Nat.two_pow_pos j))), Nat.add_right_comm,
    Nat.pow_add, Nat.pow_add]
  exact ⟨Nat.mul_le_mul_right _ (Nat.log2_self_le nonzero),
    Nat.mul_lt_mul_of_pos_right Nat.lt_log2_self (Nat.two_pow_pos j)⟩

theorem shiftOf_normal {m k : Nat} (normal : Normal m k) : shiftOf (m * 2 ^ k) = k := by
  obtain ⟨pos, small, leading⟩ := normal
  rw [shiftOf, log2_mul_two_pow pos]
  rcases leading with leading | rfl
  · rw [log2_significand leading small, Nat.add_sub_cancel_left]
  · have high := (Nat.log2_lt (Nat.ne_of_gt pos)).mpr small
    omega

/-- A double has room for every significand in its place. -/
theorem bitsOfRatio_normal {m k : Nat} (normal : Normal m k)
    (below : k * 2 ^ 52 + m < infinityBits) :
    bitsOfRatio (m * 2 ^ k) 1 = k * 2 ^ 52 + m := by
  rw [bitsOfRatio_eq, Nat.div_one, shiftOf_normal normal, Nat.one_mul,
    roundHalfEven_mul_self m (Nat.two_pow_pos k)]
  exact Nat.min_eq_left (Nat.le_of_lt below)

/-- The bits of a finite magnitude other than zero are those of a significand and a place. -/
theorem exists_normal {bits : Nat} (pos : 0 < bits) :
    ∃ m k, Normal m k ∧ bits = k * 2 ^ 52 + m := by
  rcases Nat.lt_or_ge bits (2 ^ 52) with small | large
  · exact ⟨bits, 0, ⟨pos, by omega, .inr rfl⟩, by omega⟩
  · obtain ⟨k, place⟩ : ∃ k, bits / 2 ^ 52 = k + 1 := ⟨bits / 2 ^ 52 - 1, by omega⟩
    exact ⟨2 ^ 52 + bits % 2 ^ 52, k, ⟨by omega, by omega, .inl (by omega)⟩, by omega⟩

/-- The bits of a finite double come back from its units. -/
theorem bitsOfRatio_unitsOfBits {bits : Nat} (below : bits < infinityBits) :
    bitsOfRatio (unitsOfBits bits) 1 = bits := by
  rcases Nat.eq_zero_or_pos bits with rfl | pos
  · rfl
  · obtain ⟨m, k, normal, rfl⟩ := exists_normal pos
    rw [unitsOfBits_parts normal, bitsOfRatio_normal normal below]

theorem unitsOfBits_le_iff {a b : Nat} (left : a < infinityBits) (right : b < infinityBits) :
    unitsOfBits a ≤ unitsOfBits b ↔ a ≤ b := by
  have mono {c d : Nat} (first : c < infinityBits) (second : d < infinityBits)
      (le : unitsOfBits c ≤ unitsOfBits d) : c ≤ d := by
    rw [← bitsOfRatio_unitsOfBits first, ← bitsOfRatio_unitsOfBits second]
    exact bitsOfRatio_mono Nat.one_pos le
  refine ⟨mono left right, fun le => ?_⟩
  rcases Nat.le_total (unitsOfBits a) (unitsOfBits b) with below | above
  · exact below
  · have same : a = b := Nat.le_antisymm le (mono right left above)
    exact Nat.le_of_eq (congrArg unitsOfBits same)

section

variable (negative : Bool) (num den : Nat)

@[simp] theorem magnitudeBits_ofRatio :
    magnitudeBits (ofRatio negative num den) = bitsOfRatio num den := by
  rw [ofRatio, magnitudeBits_ofMagnitudeBits negative (bitsOfRatio_le num den)]

@[simp] theorem isNegative_ofRatio : isNegative (ofRatio negative num den) = negative := by
  rw [ofRatio, isNegative_ofMagnitudeBits negative (bitsOfRatio_le num den)]

@[simp] theorem units_ofRatio :
    units (ofRatio negative num den) = unitsOfBits (bitsOfRatio num den) := by
  rw [units, magnitudeBits_ofRatio]

@[simp] theorem key_ofRatio :
    key (ofRatio negative num den) = signed negative (bitsOfRatio num den) := by
  rw [key, magnitudeBits_ofRatio, isNegative_ofRatio]

@[simp] theorem isNaN_ofRatio : (ofRatio negative num den).isNaN = false := by
  apply isNaN_of_magnitudeBits_le
  rw [magnitudeBits_ofRatio]
  exact bitsOfRatio_le num den

end

/-- The units of a finite double with its sign. -/
def signedUnits (x : Float) : Int := signed (isNegative x) (units x)

theorem key_le_iff {x y : Float} (left : x.isFinite = true) (right : y.isFinite = true) :
    key x ≤ key y ↔ signedUnits x ≤ signedUnits y := by
  rw [isFinite_iff] at left right
  have forward := unitsOfBits_le_iff left right
  have backward := unitsOfBits_le_iff right left
  have none : unitsOfBits 0 = 0 := rfl
  have xZero := unitsOfBits_le_iff left (b := 0) (by decide)
  have yZero := unitsOfBits_le_iff right (b := 0) (by decide)
  unfold key signedUnits signed units
  split <;> split <;> omega

end StyleFunctions.Binary64
