import Mathlib.Algebra.Order.Floor.Ring
import Mathlib.Algebra.Order.Floor.Semiring
import Mathlib.Algebra.Order.Round
import Mathlib.Tactic.FieldSimp
import Mathlib.Tactic.Linarith
import Mathlib.Tactic.Ring
import StyleFunctions.Scalar.Basic

/-!
Exact numbers: every ordered field with a floor, the rational numbers among them, can stand for the
numbers of a style sheet. No operation rounds and there is no NaN.
-/

namespace StyleFunctions.Exact

variable {K : Type} [Field K] [LinearOrder K] [FloorRing K]

/-- The integer part of a number, toward zero. -/
def integerPart (x : K) : ℤ := if x < 0 then ⌈x⌉ else ⌊x⌋

scoped instance scalar : Scalar K where
  decideLT := inferInstance
  decideLE := inferInstance
  ofDecimal d := (if d.negative then -1 else 1) * (d.numerator / d.denominator)
  abs x := |x|
  floor x := (⌊x⌋ : K)
  ceil x := (⌈x⌉ : K)
  round x := if x < 0 then -(round (-x) : K) else (round x : K)
  trunc x := (integerPart x : K)
  rem x y := x - y * (integerPart (x / y) : K)
  isNaN _ := false
  isFinite _ := true
  order := compare
  toNat x := ⌊x⌋₊

theorem literal_eq_cast (n : ℕ) : (@OfNat.ofNat K n (Scalar.instOfNat n) : K) = (n : K) := by
  change (if false = true then (-1 : K) else 1) *
    ((Decimal.ofNat n).numerator / (Decimal.ofNat n).denominator) = n
  simp [Decimal.ofNat, Decimal.numerator, Decimal.denominator]

/-- The literals of a formula over scalars are the literals of the field. -/
theorem literal (n : ℕ) [n.AtLeastTwo] :
    (@OfNat.ofNat K n (Scalar.instOfNat n) : K) = (OfNat.ofNat n : K) :=
  literal_eq_cast n

theorem literal_zero : (@OfNat.ofNat K 0 (Scalar.instOfNat 0) : K) = 0 := by
  rw [literal_eq_cast 0, Nat.cast_zero]

theorem literal_one : (@OfNat.ofNat K 1 (Scalar.instOfNat 1) : K) = 1 := by
  rw [literal_eq_cast 1, Nat.cast_one]

theorem literal_fraction (mantissa places : ℕ) :
    (@OfScientific.ofScientific K Scalar.instOfScientific mantissa true places : K) =
      mantissa / 10 ^ places := by
  change (if false = true then (-1 : K) else 1) *
    ((Decimal.ofScientific mantissa true places).numerator /
      (Decimal.ofScientific mantissa true places).denominator) = mantissa / 10 ^ places
  simp [Decimal.ofScientific, Decimal.numerator, Decimal.denominator]

variable {x y m : K}

theorem larger_eq (x y : K) : Scalar.larger x y = max x y := by
  change (if x < y then y else x) = max x y
  split
  · rename_i less
    exact (max_eq_right less.le).symm
  · rename_i notLess
    exact (max_eq_left (not_lt.mp notLess)).symm

theorem smaller_eq (x y : K) : Scalar.smaller x y = min x y := by
  change (if y < x then y else x) = min x y
  split
  · rename_i less
    exact (min_eq_right less.le).symm
  · rename_i notLess
    exact (min_eq_left (not_lt.mp notLess)).symm

theorem clampUnit_eq (x : K) : Scalar.clampUnit x = if x < 0 then 0 else if 1 < x then 1 else x := by
  simp only [Scalar.clampUnit, Scalar.clamp, literal_zero, literal_one]

/-- The nearest number of the unit range. -/
theorem clampUnit_eq_max [IsStrictOrderedRing K] (x : K) :
    Scalar.clampUnit x = max 0 (min 1 x) := by
  rw [clampUnit_eq]
  split
  case isTrue below => rw [max_eq_left ((min_le_right 1 x).trans below.le)]
  case isFalse positive =>
    split
    case isTrue above => rw [min_eq_left above.le, max_eq_right zero_le_one]
    case isFalse inside => rw [min_eq_right (not_lt.mp inside), max_eq_right (not_lt.mp positive)]

theorem clampUnit_of_mem (lower : 0 ≤ x) (upper : x ≤ 1) : Scalar.clampUnit x = x := by
  rw [clampUnit_eq, if_neg (not_lt.mpr lower), if_neg (not_lt.mpr upper)]

theorem clampUnit_mem [IsStrictOrderedRing K] (x : K) : Scalar.clampUnit x ∈ Set.Icc (0 : K) 1 := by
  rw [clampUnit_eq]
  split
  · exact ⟨le_rfl, zero_le_one⟩
  · rename_i lower
    split
    · exact ⟨zero_le_one, le_rfl⟩
    · rename_i upper
      exact ⟨not_lt.mp lower, not_lt.mp upper⟩

/-! ### Integral powers -/

omit [LinearOrder K] [FloorRing K] in
theorem power_halves (base : K) (n : ℕ) :
    base ^ n = (if n % 2 = 1 then base else 1) * (base * base) ^ (n / 2) := by
  have halves : base ^ n = base ^ (n % 2) * (base * base) ^ (n / 2) := by
    rw [← pow_two, ← pow_mul, ← pow_add, Nat.mod_add_div]
  rw [halves]
  rcases Nat.mod_two_eq_zero_or_one n with even | odd
  · rw [even, if_neg zero_ne_one, pow_zero]
  · rw [odd, if_pos rfl, pow_one]

/-- The loop keeps the product of its result and the power that is left. -/
theorem powerLoop_eq {fuel n : ℕ} (enough : n < 2 ^ fuel) (base result : K) :
    Scalar.powerLoop fuel base result n = result * base ^ n := by
  induction fuel generalizing n base result with
  | zero =>
      have none : n = 0 := Nat.lt_one_iff.mp enough
      rw [none, pow_zero, mul_one]
      rfl
  | succ fuel ih =>
      have step : Scalar.powerLoop (fuel + 1) base result n =
          if n / 2 = 0 then (if n % 2 = 1 then result * base else result)
          else Scalar.powerLoop fuel (base * base) (if n % 2 = 1 then result * base else result)
            (n / 2) := rfl
      have taken : (if n % 2 = 1 then result * base else result) =
          result * (if n % 2 = 1 then base else 1) := by
        rw [mul_ite, mul_one]
      have half : n / 2 < 2 ^ fuel := by
        rw [pow_succ] at enough
        omega
      rw [step, taken, power_halves base n]
      split
      case isTrue last => rw [last, pow_zero, mul_one]
      case isFalse more => rw [ih half, mul_assoc]

theorem intPower_natCast (base : K) (n : ℕ) : Scalar.intPower base (n : ℤ) = base ^ n := by
  have positive : ¬ (n : ℤ) < 0 := not_lt.mpr (Int.natCast_nonneg n)
  rw [Scalar.intPower, if_neg positive, Int.natAbs_natCast, powerLoop_eq Nat.lt_log2_self, literal_one,
    one_mul]

/-! ### The cyclic remainder -/

theorem cyclic_def (x m : K) :
    Scalar.cyclic x m =
      if x - m * integerPart (x / m) < 0 then x - m * integerPart (x / m) + |m|
      else x - m * integerPart (x / m) := by
  simp only [Scalar.cyclic, literal_zero]
  rfl

variable [IsStrictOrderedRing K]

/-- The remainder is the part of the last turn that was gone. -/
theorem cyclic_eq (pos : 0 < m) (x : K) : Scalar.cyclic x m = m * Int.fract (x / m) := by
  have whole : x = m * (x / m) := by field_simp
  have shifted (n : ℤ) : x - m * n = m * (x / m - n) := by rw [mul_sub, ← whole]
  rw [cyclic_def, abs_of_pos pos, shifted]
  unfold integerPart
  split
  · -- Toward zero is upward here, so the remainder is one turn short unless nothing remains.
    by_cases integral : x / m ∈ Set.range ((↑) : ℤ → K)
    · rcases integral with ⟨n, same⟩
      rw [← same, Int.ceil_intCast, sub_self, mul_zero, if_neg (lt_irrefl 0), Int.fract_intCast,
        mul_zero]
    · have ceil : ⌈x / m⌉ = ⌊x / m⌋ + 1 := (Int.ceil_eq_floor_add_one_iff_notMem _).mpr integral
      have short : x / m - ⌈x / m⌉ = Int.fract (x / m) - 1 := by
        rw [ceil, Int.fract]
        push_cast
        ring
      have negative : m * (Int.fract (x / m) - 1) < 0 :=
        mul_neg_of_pos_of_neg pos (sub_neg.mpr (Int.fract_lt_one _))
      rw [short, if_pos negative]
      ring
  · rw [Int.self_sub_floor, if_neg (not_lt.mpr (mul_nonneg pos.le (Int.fract_nonneg _)))]

theorem cyclic_nonneg (pos : 0 < m) (x : K) : 0 ≤ Scalar.cyclic x m := by
  rw [cyclic_eq pos]
  exact mul_nonneg pos.le (Int.fract_nonneg _)

theorem cyclic_lt (pos : 0 < m) (x : K) : Scalar.cyclic x m < m := by
  rw [cyclic_eq pos]
  exact mul_lt_of_lt_one_right pos (Int.fract_lt_one _)

theorem cyclic_of_mem (lower : 0 ≤ x) (upper : x < m) : Scalar.cyclic x m = x := by
  have pos : 0 < m := lt_of_le_of_lt lower upper
  have fract : Int.fract (x / m) = x / m :=
    Int.fract_eq_self.mpr ⟨div_nonneg lower pos.le, (div_lt_one pos).mpr upper⟩
  rw [cyclic_eq pos, fract, mul_div_cancel₀ _ pos.ne']

/-- The remainder and the number are whole turns apart. -/
theorem exists_cyclic_turns (pos : 0 < m) (x : K) :
    ∃ turns : ℤ, Scalar.cyclic x m = x + m * turns := by
  refine ⟨-⌊x / m⌋, ?_⟩
  rw [cyclic_eq pos, Int.fract, mul_sub, mul_div_cancel₀ _ pos.ne']
  push_cast
  ring

/-- Whole turns do not change the remainder. -/
theorem cyclic_add_turns (pos : 0 < m) (x : K) (turns : ℤ) :
    Scalar.cyclic (x + m * turns) m = Scalar.cyclic x m := by
  have quotient : (x + m * turns) / m = x / m + turns := by field_simp
  rw [cyclic_eq pos, cyclic_eq pos, quotient, Int.fract_add_intCast]

/-- A remainder that goes on is the remainder of the whole way. -/
theorem cyclic_cyclic_add (pos : 0 < m) (x y : K) :
    Scalar.cyclic (Scalar.cyclic x m + y) m = Scalar.cyclic (x + y) m := by
  obtain ⟨turns, apart⟩ := exists_cyclic_turns pos x
  rw [apart, add_right_comm, cyclic_add_turns pos]

end StyleFunctions.Exact
