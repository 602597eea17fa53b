import StyleFunctions.Proofs.Binary64.Size
import StyleFunctions.Proofs.Binary64.Infinity

/-!
The powers of ten that repeated squaring gives. They are exact as long as a double can hold them,
off by one part in `2 ^ 52` for each factor beyond the first while they are finite, and infinite
from `10 ^ 309` on. One product keeps this, and so does the whole loop.
-/

namespace StyleFunctions.Binary64

/-- The error of a power of ten: no multiplication is needed for the first factor. -/
def growth (n : ℕ) : ℚ := (n - 1 : ℕ) / 2 ^ 52

/-- What becomes of a power of ten under rounding. -/
structure PowerOfTen (n : ℕ) (x : Float) : Prop where
  positive : isNegative x = false
  finite : n ≤ 308 → x.isFinite = true
  exact : n ≤ 22 → units x = 10 ^ n * one
  near : n ≤ 308 → |size x - 10 ^ n| ≤ 10 ^ n * growth n
  infinite : 308 < n → magnitudeBits x = infinityBits

/-! ### Where doubles end -/

-- The exponents are variables, as that of `one` is: only the kernel computes these powers.

theorem finiteRange_of_le {n : ℕ} (le : n ≤ 308) :
    (10 : ℚ) ^ n * (1 + 1 / 2 ^ 40) ≤ finiteRange := by
  have last : ∃ k, k = 308 ∧ 10 ^ k * (2 ^ 40 + 1) ≤ finiteRange * 2 ^ 40 :=
    ⟨308, rfl, by decide +kernel⟩
  obtain ⟨k, same, most⟩ := last
  rw [← same] at le
  have cast : ((_ : ℕ) : ℚ) ≤ (_ : ℕ) := Nat.cast_le.mpr most
  push_cast at cast
  have raised : (10 : ℚ) ^ n ≤ 10 ^ k := pow_le_pow_right₀ (by norm_num) le
  linarith

theorem infiniteRange_of_lt {n : ℕ} (above : 308 < n) :
    (infiniteRange : ℚ) * 2 ≤ 10 ^ n := by
  have first : ∃ k, k = 309 ∧ infiniteRange * 2 ≤ 10 ^ k :=
    ⟨309, rfl, by decide +kernel⟩
  obtain ⟨k, same, least⟩ := first
  have le : k ≤ n := by rw [same]; exact above
  have cast : ((_ : ℕ) : ℚ) ≤ (_ : ℕ) := Nat.cast_le.mpr least
  push_cast at cast
  exact cast.trans (pow_le_pow_right₀ (by norm_num) le)

theorem halfUnit_of_le {n : ℕ} (le : n ≤ 308) : halfUnit * 10 ^ n ≤ 1 / 2 ^ 51 := by
  have last : ∃ k, k = 308 ∧ 2 ^ 50 * 10 ^ k ≤ one := ⟨308, rfl, by decide +kernel⟩
  obtain ⟨k, same, most⟩ := last
  rw [← same] at le
  have unit := one_cast_pos
  have cast : ((_ : ℕ) : ℚ) ≤ (_ : ℕ) := Nat.cast_le.mpr most
  push_cast at cast
  have raised : (10 : ℚ) ^ n ≤ 10 ^ k := pow_le_pow_right₀ (by norm_num) le
  rw [halfUnit, one_div_mul_eq_div, div_le_iff₀ (mul_pos two_pos unit)]
  linarith

theorem representable_tenPow {n : ℕ} (small : n ≤ 22) : Representable (10 ^ n * one) := by
  obtain ⟨place, high, unit⟩ := one_eq
  refine ⟨5 ^ n, n + place, ?_, by omega, ?_⟩
  · calc
      5 ^ n ≤ 5 ^ 22 := Nat.pow_le_pow_right (by decide) small
      _ < 2 ^ 53 := by decide
  · rw [unit, show 10 = 5 * 2 from rfl, Nat.mul_pow, Nat.pow_add, Nat.mul_assoc]

/-! ### The error of a product -/

theorem growth_nonneg (n : ℕ) : 0 ≤ growth n := by
  unfold growth
  positivity

theorem growth_le {n : ℕ} (le : n ≤ 308) : growth n ≤ 307 / 2 ^ 52 := by
  have cast : ((n - 1 : ℕ) : ℚ) ≤ 307 := by exact_mod_cast (show n - 1 ≤ 307 by omega)
  exact div_le_div_of_nonneg_right cast (by positivity)

theorem growth_add {n m : ℕ} (left : 0 < n) (right : 0 < m) :
    growth (n + m) = growth n + growth m + 1 / 2 ^ 52 := by
  have steps : n + m - 1 = n - 1 + (m - 1) + 1 := by omega
  unfold growth
  rw [steps]
  push_cast
  ring

theorem growth_mul_le {n m : ℕ} (left : n ≤ 308) (right : m ≤ 308) :
    growth n * growth m ≤ 1 / 2 ^ 86 := by
  calc
    growth n * growth m ≤ 307 / 2 ^ 52 * (307 / 2 ^ 52) :=
      mul_le_mul (growth_le left) (growth_le right) (growth_nonneg m) (by positivity)
    _ ≤ 1 / 2 ^ 86 := by norm_num

/-- Two approximate factors make an approximate product. -/
theorem abs_mul_sub_le {a b c d s t : ℚ} (cNonneg : 0 ≤ c) (dNonneg : 0 ≤ d)
    (first : |a - c| ≤ c * s) (second : |b - d| ≤ d * t) :
    |a * b - c * d| ≤ c * d * (s + t + s * t) := by
  have both : |(a - c) * (b - d)| ≤ c * s * (d * t) := by
    rw [abs_mul]
    exact mul_le_mul first second (abs_nonneg _) ((abs_nonneg _).trans first)
  have left : |(a - c) * d| ≤ c * s * d := by
    rw [abs_mul, abs_of_nonneg dNonneg]
    exact mul_le_mul_of_nonneg_right first dNonneg
  have right : |c * (b - d)| ≤ c * (d * t) := by
    rw [abs_mul, abs_of_nonneg cNonneg]
    exact mul_le_mul_of_nonneg_left second cNonneg
  calc
    |a * b - c * d| = |(a - c) * (b - d) + (a - c) * d + c * (b - d)| := by
      congr 1
      ring
    _ ≤ |(a - c) * (b - d)| + |(a - c) * d| + |c * (b - d)| := abs_add_three _ _ _
    _ ≤ c * s * (d * t) + c * s * d + c * (d * t) := add_le_add (add_le_add both left) right
    _ = c * d * (s + t + s * t) := by ring

namespace PowerOfTen

variable {n m : ℕ} {x y : Float}

theorem bits_le (power : PowerOfTen n x) : magnitudeBits x ≤ infinityBits := by
  rcases Nat.lt_or_ge 308 n with above | within
  · exact Nat.le_of_eq (power.infinite above)
  · exact Nat.le_of_lt ((isFinite_iff x).mp (power.finite within))

theorem bits_pos (power : PowerOfTen n x) : 0 < magnitudeBits x := by
  rcases Nat.lt_or_ge 308 n with above | within
  · rw [power.infinite above]
    decide
  · have positive : (0 : ℚ) < 10 ^ n := by positivity
    have half := mul_le_mul_of_nonneg_left (growth_le within) positive.le
    have below := (abs_le.mp (power.near within)).1
    exact size_pos_iff.mp (by linarith)

section

variable (first : PowerOfTen n x) (second : PowerOfTen m y)

include first second

theorem product_near (left : n ≤ 308) (right : m ≤ 308) :
    |size x * size y - 10 ^ (n + m)| ≤
      10 ^ (n + m) * (growth n + growth m + growth n * growth m) := by
  rw [pow_add]
  exact abs_mul_sub_le (by positivity) (by positivity) (first.near left) (second.near right)

theorem product_bounds (left : n ≤ 308) (right : m ≤ 308) :
    10 ^ (n + m) ≤ size x * size y * 2 ∧ size x * size y ≤ 10 ^ (n + m) * (1 + 1 / 2 ^ 40) := by
  have near := product_near first second left right
  have little : growth n + growth m + growth n * growth m ≤ 1 / 2 ^ 40 := by
    linarith [growth_le left, growth_le right, growth_mul_le left right]
  have positive : (0 : ℚ) < 10 ^ (n + m) := by positivity
  have bound := near.trans (mul_le_mul_of_nonneg_left little positive.le)
  obtain ⟨below, above⟩ := abs_le.mp bound
  constructor <;> linarith

theorem isFinite_mul (le : n + m ≤ 308) : (x * y).isFinite = true := by
  have left : n ≤ 308 := by omega
  have right : m ≤ 308 := by omega
  apply isFinite_mul_of_le (first.finite left) (second.finite right)
  exact (product_bounds first second left right).2.trans (finiteRange_of_le le)

/-- One more rounding is as much as one more factor. -/
theorem near_mul (nPos : 0 < n) (mPos : 0 < m) (le : n + m ≤ 308) :
    |size (x * y) - 10 ^ (n + m)| ≤ 10 ^ (n + m) * growth (n + m) := by
  have left : n ≤ 308 := by omega
  have right : m ≤ 308 := by omega
  have product := product_near first second left right
  have most := (product_bounds first second left right).2
  have rounded : |size (x * y) - size x * size y| ≤ halfUnit + size x * size y / 2 ^ 53 :=
    Binary64.near_mul (first.finite left) (second.finite right) (isFinite_mul first second le)
  have least : (1 : ℚ) ≤ 10 ^ (n + m) := one_le_pow₀ (by norm_num)
  have tiny := halfUnit_of_le (show 20 ≤ 308 by decide)
  have cross := mul_le_mul_of_nonneg_left (growth_mul_le left right) (zero_le_one.trans least)
  calc
    |size (x * y) - 10 ^ (n + m)| ≤
        |size (x * y) - size x * size y| + |size x * size y - 10 ^ (n + m)| := abs_sub_le _ _ _
    _ ≤ 10 ^ (n + m) * (growth n + growth m + 1 / 2 ^ 52) := by linarith
    _ = 10 ^ (n + m) * growth (n + m) := by rw [growth_add nPos mPos]

theorem mul_eq_infinity (infinite : 308 < n ∨ 308 < m) :
    x * y = ofMagnitudeBits false infinityBits :=
  Binary64.mul_eq_infinity first.positive second.positive first.bits_pos second.bits_pos
    first.bits_le second.bits_le (infinite.imp first.infinite second.infinite)

theorem mul_eq_ofRatio (left : n ≤ 308) (right : m ≤ 308) :
    x * y = ofRatio false (units x * units y) one := by
  rw [mul_eq (first.finite left) (second.finite right), first.positive, second.positive]
  rfl

/-- The sign, and where the product stays finite. -/
theorem mul_sign : isNegative (x * y) = false := by
  rcases Nat.lt_or_ge 308 n with above | left
  · rw [mul_eq_infinity first second (.inl above), isNegative_ofMagnitudeBits _ (Nat.le_refl _)]
  · rcases Nat.lt_or_ge 308 m with above | right
    · rw [mul_eq_infinity first second (.inr above), isNegative_ofMagnitudeBits _ (Nat.le_refl _)]
    · rw [mul_eq_ofRatio first second left right, isNegative_ofRatio]

theorem mul_infinite (above : 308 < n + m) : magnitudeBits (x * y) = infinityBits := by
  by_cases outside : 308 < n ∨ 308 < m
  · rw [mul_eq_infinity first second outside, magnitudeBits_ofMagnitudeBits _ (Nat.le_refl _)]
  · have left : n ≤ 308 := by omega
    have right : m ≤ 308 := by omega
    apply magnitudeBits_mul_of_le (first.finite left) (second.finite right)
    linarith [(product_bounds first second left right).1, infiniteRange_of_lt above]

theorem mul_exact (small : n + m ≤ 22) : units (x * y) = 10 ^ (n + m) * one := by
  have unit := one_pos
  have same : bitsOfRatio (10 ^ n * one * (10 ^ m * one)) one =
      bitsOfRatio (10 ^ (n + m) * one) 1 := by
    apply bitsOfRatio_eq_of_ratio unit Nat.one_pos
    rw [Nat.pow_add]
    ring
  rw [mul_eq_ofRatio first second (by omega) (by omega), units_ofRatio, first.exact (by omega),
    second.exact (by omega), same]
  exact (bitsOfRatio_representable (representable_tenPow small)).2

end

/-- Where one of the factors is one nothing is rounded. -/
theorem size_one_mul (first : PowerOfTen 0 x) (second : PowerOfTen m y) (le : m ≤ 308) :
    size (x * y) = size y ∧ size (y * x) = size y := by
  have whole : units x = one := by rw [first.exact (Nat.zero_le _), Nat.pow_zero, Nat.one_mul]
  have bits := bitsOfRatio_units one_pos ((isFinite_iff y).mp (second.finite le))
  have same : unitsOfBits (bitsOfRatio (units y * one) one) = units y := congrArg unitsOfBits bits
  rw [size, size, size, mul_eq_ofRatio first second (Nat.zero_le _) le,
    mul_eq_ofRatio second first le (Nat.zero_le _), units_ofRatio, units_ofRatio, whole,
    Nat.mul_comm one, same]
  exact ⟨rfl, rfl⟩

/-- What one product keeps. -/
theorem mul (first : PowerOfTen n x) (second : PowerOfTen m y) : PowerOfTen (n + m) (x * y) where
  positive := mul_sign first second
  finite := isFinite_mul first second
  exact := mul_exact first second
  near le := by
    rcases Nat.eq_zero_or_pos n with rfl | nPos
    · rw [Nat.zero_add] at le ⊢
      rw [(size_one_mul first second le).1]
      exact second.near le
    · rcases Nat.eq_zero_or_pos m with rfl | mPos
      · rw [(size_one_mul second first le).2]
        exact first.near le
      · exact near_mul first second nPos mPos le
  infinite := mul_infinite first second

end PowerOfTen

theorem powerOfTen_literal {n : ℕ} (small : 10 ^ n ≤ 2 ^ 53) :
    PowerOfTen n (Scalar.ofNat (10 ^ n)) := by
  have whole := denotes_ofNat small
  have within : n < 16 := by
    by_contra beyond
    have least : 10 ^ 16 ≤ 10 ^ n := Nat.pow_le_pow_right (by decide) (Nat.le_of_not_lt beyond)
    exact absurd (Nat.le_trans least small) (by decide)
  have value : size (Scalar.ofNat (10 ^ n)) = 10 ^ n := by
    rw [size_of_whole whole.units_eq, Nat.cast_pow]
    rfl
  refine ⟨isNegative_ofNat _, fun _ => whole.finite, fun _ => whole.units_eq, fun _ => ?_, by omega⟩
  rw [value, sub_self, abs_zero]
  exact mul_nonneg (by positivity) (growth_nonneg n)

/-- What the whole loop keeps: the result grows by the power of the base that is asked for. -/
theorem powerLoop_ten {fuel n k l : ℕ} {base result : Float} (room : n < 2 ^ fuel)
    (power : PowerOfTen k base) (done : PowerOfTen l result) :
    PowerOfTen (l + k * n) (Scalar.powerLoop fuel base result n) := by
  induction fuel generalizing n k l base result with
  | zero =>
      have none : n = 0 := by omega
      rw [none]
      exact done
  | succ fuel ih =>
      have next : PowerOfTen (l + k * (n % 2)) (if n % 2 = 1 then result * base else result) := by
        split
        case isTrue odd =>
          rw [odd, Nat.mul_one]
          exact done.mul power
        case isFalse even =>
          have zero : n % 2 = 0 := by omega
          rw [zero]
          exact done
      rw [Scalar.powerLoop]
      split
      case isTrue last =>
        have all : l + k * (n % 2) = l + k * n := by rw [Nat.mod_eq_of_lt (by omega)]
        rw [← all]
        exact next
      case isFalse more =>
        have rest : n / 2 < 2 ^ fuel := by omega
        have whole : l + k * (n % 2) + (k + k) * (n / 2) = l + k * n := by
          calc
            l + k * (n % 2) + (k + k) * (n / 2) = l + k * (2 * (n / 2) + n % 2) := by ring
            _ = l + k * n := by rw [Nat.div_add_mod]
        rw [← whole]
        exact ih rest (power.mul power) next

/-- The power of ten by repeated squaring. -/
theorem powerOfTen_intPower (n : ℕ) : PowerOfTen n (Scalar.intPower (Scalar.ofNat 10) n) := by
  have run := powerLoop_ten (Nat.lt_log2_self (n := n)) (powerOfTen_literal (n := 1) (by decide))
    (powerOfTen_literal (n := 0) (by decide))
  rw [Nat.zero_add, Nat.one_mul] at run
  exact run

/-- The powers of ten are whole numbers. -/
theorem PowerOfTen.exists_whole {n : ℕ} {c : Float} (power : PowerOfTen n c) (le : n ≤ 308) :
    ∃ count, units c = count * one ∧ (n ≤ 22 → count = 10 ^ n) := by
  rcases Nat.lt_or_ge 22 n with large | small
  · -- Beyond `2 ^ 53` all doubles are whole.
    have unit := one_cast_pos
    have near := (abs_le.mp (power.near le)).1
    have raised : (10 : ℚ) ^ 23 ≤ 10 ^ n := pow_le_pow_right₀ (by norm_num) large
    have error := mul_le_mul_of_nonneg_left (growth_le le)
      (pow_nonneg (show (0 : ℚ) ≤ 10 by norm_num) n)
    have least : (2 : ℚ) ^ 53 ≤ size c := by linarith
    rw [size, le_div_iff₀ unit] at least
    have wide : ((2 ^ 53 * one : ℕ) : ℚ) ≤ units c := by
      push_cast
      exact least
    obtain ⟨count, whole⟩ := exists_whole_of_le (power.finite le) (Nat.cast_le.mp wide)
    exact ⟨count, whole, fun small => by omega⟩
  · exact ⟨10 ^ n, power.exact small, fun _ => rfl⟩

end StyleFunctions.Binary64
