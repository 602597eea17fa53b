import StyleFunctions.Proofs.Binary64.Parts

/-! The comparisons of doubles: numbers compare as their signed bits do, a NaN with nothing. -/

namespace StyleFunctions.Binary64

open Float.Model (UnpackedFloat)

def signed (negative : Bool) (n : Nat) : Int := if negative then -n else n

/-- The bits of a double with its sign. Both zeros have the key `0`. -/
def key (x : Float) : Int := signed (isNegative x) (magnitudeBits x)

theorem eq_compare_iff {a b : Int} {o : Ordering} :
    o = compare a b ↔ (o = .lt → a < b) ∧ (o = .eq → a = b) ∧ (o = .gt → b < a) := by
  constructor
  · rintro rfl
    exact ⟨Int.compare_eq_lt.mp, Int.compare_eq_eq.mp, Int.compare_eq_gt.mp⟩
  · rintro ⟨less, same, more⟩
    cases o with
    | lt => exact (Int.compare_eq_lt.mpr (less rfl)).symm
    | eq => exact (Int.compare_eq_eq.mpr (same rfl)).symm
    | gt => exact (Int.compare_eq_gt.mpr (more rfl)).symm

theorem compare_normal {m k n l : Nat} (first : Normal m k) (second : Normal n l) :
    (compare ((k : Int) - 1074) ((l : Int) - 1074)).then (compare m n) =
      compare ((k * 2 ^ 52 + m : Nat) : Int) ((l * 2 ^ 52 + n : Nat) : Int) := by
  obtain ⟨_, mBelow, mLeading⟩ := first
  obtain ⟨_, nBelow, nLeading⟩ := second
  rcases Nat.lt_trichotomy k l with less | rfl | more
  · rw [Int.compare_eq_lt.mpr (by omega), Ordering.lt_then]
    exact (Int.compare_eq_lt.mpr (by omega)).symm
  · rw [Int.compare_eq_eq.mpr rfl, Ordering.eq_then, eq_compare_iff, Nat.compare_eq_lt,
      Nat.compare_eq_eq, Nat.compare_eq_gt]
    omega
  · rw [Int.compare_eq_gt.mpr (by omega), Ordering.gt_then]
    exact (Int.compare_eq_gt.mpr (by omega)).symm

theorem compare_neg (a b : Int) : compare (-a) (-b) = (compare a b).swap := by
  rw [Int.compare_swap]
  refine eq_compare_iff.mpr ⟨fun less => ?_, fun same => ?_, fun more => ?_⟩
  · have := Int.compare_eq_lt.mp less
    omega
  · have := Int.compare_eq_eq.mp same
    omega
  · have := Int.compare_eq_gt.mp more
    omega

/-- Signs do to the comparison of two finite numbers what they do to that of their bits. -/
theorem compare_finite {p q : Bool} {m n a b : Nat} {e f : Int} (mPos : 0 < m) (nPos : 0 < n)
    (same : (compare e f).then (compare m n) = compare (a : Int) (b : Int)) (aPos : 0 < a)
    (bPos : 0 < b) :
    (UnpackedFloat.finite (signOf p) m e mPos).compare (.finite (signOf q) n f nPos) =
      some (compare (signed p a) (signed q b)) := by
  cases p with
  | false =>
      cases q with
      | false => exact congrArg some same
      | true =>
          have more : -(b : Int) < a := by omega
          exact congrArg some (Int.compare_eq_gt.mpr more).symm
  | true =>
      cases q with
      | false =>
          have less : -(a : Int) < b := by omega
          exact congrArg some (Int.compare_eq_lt.mpr less).symm
      | true => exact congrArg some ((congrArg Ordering.swap same).trans (compare_neg a b).symm)

/-- Numbers, the infinities among them, compare as their keys. -/
theorem compare_parts {p q : Bool} {a b : Nat} {f g : UnpackedFloat} (first : Parts p a f)
    (second : Parts q b g) (left : a ≤ infinityBits) (right : b ≤ infinityBits) :
    f.compare g = some (compare (signed p a) (signed q b)) := by
  have large : 0 < infinityBits := by decide
  -- Two finite numbers are compared by their parts, all others by what they are.
  cases first with
  | notANumber above => omega
  | zero zero =>
      cases second with
      | notANumber above => omega
      | zero other =>
          rw [zero, other]
          cases p <;> cases q <;> rfl
      | finite pos normal bits below =>
          cases p <;> cases q <;> refine congrArg some (eq_compare_iff.mpr ?_) <;>
            simp [signed, zero] <;> omega
      | infinity infinite =>
          cases p <;> cases q <;> refine congrArg some (eq_compare_iff.mpr ?_) <;>
            simp [signed, zero] <;> omega
  | finite pos normal bits below =>
      cases second with
      | notANumber above => omega
      | zero other =>
          cases p <;> cases q <;> refine congrArg some (eq_compare_iff.mpr ?_) <;>
            simp [signed, other] <;> omega
      | finite otherPos otherNormal otherBits _ =>
          have same := compare_normal normal otherNormal
          rw [← bits, ← otherBits] at same
          exact compare_finite pos otherPos same (by omega) (by omega)
      | infinity infinite =>
          cases p <;> cases q <;> refine congrArg some (eq_compare_iff.mpr ?_) <;>
            simp [signed] <;> omega
  | infinity infinite =>
      cases second with
      | notANumber above => omega
      | zero other =>
          cases p <;> cases q <;> refine congrArg some (eq_compare_iff.mpr ?_) <;>
            simp [signed, other] <;> omega
      | finite otherPos otherNormal otherBits below =>
          cases p <;> cases q <;> refine congrArg some (eq_compare_iff.mpr ?_) <;>
            simp [signed] <;> omega
      | infinity other =>
          rw [infinite, other]
          cases p <;> cases q <;> rfl

theorem compare_notANumber {q : Bool} {b : Nat} {f g : UnpackedFloat} (second : Parts q b g)
    (above : infinityBits < b) : f.compare g = none ∧ g.compare f = none := by
  cases second with
  | notANumber _ => cases f <;> exact ⟨rfl, rfl⟩
  | zero zero => omega
  | finite _ _ _ below => omega
  | infinity infinite => omega

variable {x y : Float}

theorem key_eq_zero : key x = 0 ↔ magnitudeBits x = 0 := by
  unfold key signed
  split <;> omega

theorem isNaN_of_magnitudeBits_le (number : magnitudeBits x ≤ infinityBits) : x.isNaN = false := by
  rw [Bool.eq_false_iff, Ne, isNaN_iff]
  exact Nat.not_lt.mpr number

theorem isNaN_of_isFinite (finite : x.isFinite = true) : x.isNaN = false :=
  isNaN_of_magnitudeBits_le (Nat.le_of_lt ((isFinite_iff x).mp finite))

theorem compare_eq (left : x.isNaN = false) (right : y.isNaN = false) :
    x.toModel.unpack.compare y.toModel.unpack = some (compare (key x) (key y)) := by
  rw [Bool.eq_false_iff, Ne, isNaN_iff] at left right
  exact compare_parts (parts x) (parts y) (by omega) (by omega)

theorem lt_iff (left : x.isNaN = false) (right : y.isNaN = false) : x < y ↔ key x < key y := by
  change (decide (x.toModel < y.toModel)) = true ↔ _
  rw [decide_eq_true_iff]
  change (x.toModel.unpack.compare y.toModel.unpack == some .lt) = true ↔ _
  rw [compare_eq left right, beq_iff_eq, Option.some_inj, Int.compare_eq_lt]

theorem le_iff (left : x.isNaN = false) (right : y.isNaN = false) : x ≤ y ↔ key x ≤ key y := by
  change (decide (x.toModel ≤ y.toModel)) = true ↔ _
  rw [decide_eq_true_iff]
  change (x.toModel.unpack.compare y.toModel.unpack).any (·.isLE) = true ↔ _
  rw [compare_eq left right, Option.any_some, Int.isLE_compare]

theorem beq_iff (left : x.isNaN = false) (right : y.isNaN = false) :
    (x == y) = true ↔ key x = key y := by
  change (x.toModel.unpack.compare y.toModel.unpack == some .eq) = true ↔ _
  rw [compare_eq left right, beq_iff_eq, Option.some_inj, Int.compare_eq_eq]

theorem nan_beq (nan : x.isNaN = true) : (x == y) = false := by
  change (x.toModel.unpack.compare y.toModel.unpack == some .eq) = false
  rw [(compare_notANumber (parts x) ((isNaN_iff x).mp nan)).2]
  rfl

theorem nan_not_lt (nan : x.isNaN = true) (y : Float) : ¬ x < y ∧ ¬ y < x := by
  have nothing (f : UnpackedFloat) :
      f.compare x.toModel.unpack = none ∧ x.toModel.unpack.compare f = none :=
    compare_notANumber (parts x) ((isNaN_iff x).mp nan)
  constructor
  · change ¬ decide (x.toModel < y.toModel) = true
    rw [decide_eq_true_iff]
    change ¬ (x.toModel.unpack.compare y.toModel.unpack == some .lt) = true
    rw [(nothing _).2]
    exact Bool.false_ne_true
  · change ¬ decide (y.toModel < x.toModel) = true
    rw [decide_eq_true_iff]
    change ¬ (y.toModel.unpack.compare x.toModel.unpack == some .lt) = true
    rw [(nothing _).1]
    exact Bool.false_ne_true

theorem not_lt_of_lt (less : x < y) : ¬ y < x := by
  cases left : x.isNaN with
  | true => exact absurd less (nan_not_lt left y).1
  | false =>
      cases right : y.isNaN with
      | true => exact absurd less (nan_not_lt right x).2
      | false =>
          rw [lt_iff left right] at less
          rw [lt_iff right left]
          omega

end StyleFunctions.Binary64
