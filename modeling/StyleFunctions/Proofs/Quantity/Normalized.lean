import StyleFunctions.Proofs.Binary64.Scaling
import StyleFunctions.Proofs.Quantity.Measure

/-!
Doubles in the standard unit of their quantity. Rounding may make two of them equal, but never turns
their order around.
-/

namespace StyleFunctions

open Binary64 (Fraction rank)

theorem Measure.fraction (m : Measure) : Fraction m.coefficient := by
  have all : ∀ n ∈ all, (n.coefficient : Float).isFinite = true ∧
      Binary64.isNegative n.coefficient = false ∧ 0 < Binary64.magnitudeBits n.coefficient ∧
      Binary64.units n.coefficient ≤ Binary64.one := by
    decide +kernel
  have known : m ∈ Measure.all := by cases m <;> decide
  rcases all m known with ⟨finite, positive, nonzero, most⟩
  exact ⟨finite, positive, nonzero, most⟩

/-- How many standard units of its quantity a number of a unit is. A unit that measures nothing
known leaves it as it is. -/
def normalized (unit : String) (x : Float) : Float :=
  match Measure.ofSymbol? unit with
  | some m => x * m.coefficient / m.quantity.standard.coefficient
  | none => x

variable {unit : String} {x y : Float}

theorem normalized_measured {m : Measure} (found : Measure.ofSymbol? unit = some m) (x : Float) :
    normalized unit x = x * m.coefficient / m.quantity.standard.coefficient := by
  simp only [normalized, found]

theorem normalized_plain (missing : Measure.ofSymbol? unit = none) (x : Float) :
    normalized unit x = x := by
  simp only [normalized, missing]

theorem isNaN_normalized (finite : x.isFinite = true) : (normalized unit x).isNaN = false := by
  cases found : Measure.ofSymbol? unit with
  | none =>
      rw [normalized_plain found]
      exact Binary64.isNaN_of_isFinite finite
  | some m =>
      rw [normalized_measured found]
      exact m.fraction.isNaN_mul_div m.quantity.standard.fraction finite

/-- The order of two values stays, or they become equal. -/
theorem rank_normalized_mono (left : x.isFinite = true) (right : y.isFinite = true)
    (le : rank x ≤ rank y) : rank (normalized unit x) ≤ rank (normalized unit y) := by
  cases found : Measure.ofSymbol? unit with
  | none =>
      rw [normalized_plain found, normalized_plain found]
      exact le
  | some m =>
      rw [normalized_measured found, normalized_measured found]
      exact m.fraction.rank_mul_div_mono m.quantity.standard.fraction left right le

/-- Meters and seconds are normalized already. -/
theorem normalized_self (standard : ∀ m : Measure, unit = m.symbol → m = .meter ∨ m = .second)
    (finite : x.isFinite = true) : normalized unit x = x := by
  cases found : Measure.ofSymbol? unit with
  | none => exact normalized_plain found x
  | some m =>
      rw [normalized_measured found]
      rcases standard m (Measure.symbol_of_ofSymbol? found) with rfl | rfl
      · exact Binary64.mul_one_div_one finite
      · exact Binary64.mul_one_div_one finite

end StyleFunctions
