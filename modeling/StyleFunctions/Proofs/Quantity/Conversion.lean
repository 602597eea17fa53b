import StyleFunctions.Proofs.Quantity.Measure
import StyleFunctions.Proofs.Scalar.Real
import StyleFunctions.Scalar.Double

/-! The laws of conversion. They hold where no operation rounds. -/

namespace StyleFunctions

/-- The conversions between the units of one quantity fit together, and keep the order of values. -/
structure Coherent (K : Type) [Elementary K] : Prop where
  identity (m : Measure) (value : K) : convert value m.symbol m.symbol = ⟨value, m.symbol⟩
  back {m n : Measure} (same : m.quantity = n.quantity) (value : K) :
    convert (convert value m.symbol n.symbol).value n.symbol m.symbol = ⟨value, m.symbol⟩
  through {l m n : Measure} (first : l.quantity = m.quantity) (second : m.quantity = n.quantity)
    (value : K) :
    convert (convert value l.symbol m.symbol).value m.symbol n.symbol =
      convert value l.symbol n.symbol
  plain (n : Measure) (value : K) :
    convert value "" n.symbol = convert value n.quantity.defaultUnit n.symbol
  increasing {m n : Measure} (same : m.quantity = n.quantity) {value greater : K} :
    value < greater →
      (convert value m.symbol n.symbol).value < (convert greater m.symbol n.symbol).value

theorem convert_plain {α : Type} [Elementary α] (n : Measure) (value : α) :
    convert value "" n.symbol = convert value n.quantity.defaultUnit n.symbol := by
  have measured : Converts n.quantity.defaultUnit n.symbol n.quantity.standard n :=
    .measured n.quantity.standard_quantity
  rw [convert_of_converts value (.plain n), convert_of_converts value measured]

namespace Exact

variable {K : Type} [Field K] [LinearOrder K] [FloorRing K]

section

variable (numbers : Elementary K) (exact : numbers.toScalar = scalar)

include exact

/-- A conversion in the operations of the field. -/
theorem convert_eq {m n : Measure} (same : m.quantity = n.quantity) (value : K) :
    @convert K numbers value m.symbol n.symbol =
      ⟨value * @Measure.coefficient K numbers m / @Measure.coefficient K numbers n, n.symbol⟩ := by
  have applied := @convert_of_converts K numbers value _ _ _ _ (.measured same)
  cases numbers
  subst exact
  exact applied

theorem lt_iff (value greater : K) :
    @LT.lt K numbers.toLT value greater ↔ value < greater := by
  cases numbers
  subst exact
  rfl

end

variable [IsStrictOrderedRing K]

theorem coefficient_pos (numbers : Elementary K) (exact : numbers.toScalar = scalar)
    (pos : 0 < numbers.pi) (m : Measure) : 0 < @Measure.coefficient K numbers m := by
  cases numbers
  subst exact
  cases m <;>
    simp only [Measure.coefficient, literal_one, literal, literal_fraction] <;>
    positivity

theorem coherent (numbers : Elementary K) (exact : numbers.toScalar = scalar)
    (pos : 0 < numbers.pi) : @Coherent K numbers := by
  have positive := coefficient_pos numbers exact pos
  have nonzero (m : Measure) : @Measure.coefficient K numbers m ≠ 0 := (positive m).ne'
  constructor
  case identity =>
    intro m value
    rw [convert_eq numbers exact rfl, mul_div_cancel_right₀ value (nonzero m)]
  case back =>
    intro m n same value
    rw [convert_eq numbers exact same, convert_eq numbers exact same.symm,
      div_mul_cancel₀ _ (nonzero n), mul_div_cancel_right₀ value (nonzero m)]
  case through =>
    intro l m n first second value
    rw [convert_eq numbers exact first, convert_eq numbers exact second,
      convert_eq numbers exact (first.trans second), div_mul_cancel₀ _ (nonzero m)]
  case plain =>
    intro n value
    exact @convert_plain K numbers n value
  case increasing =>
    intro m n same value greater less
    rw [convert_eq numbers exact same, convert_eq numbers exact same]
    rw [lt_iff numbers exact] at less ⊢
    exact div_lt_div_of_pos_right (mul_lt_mul_of_pos_right less (positive m)) (positive n)

end Exact

/-- Between any two texts a conversion scales or passes through, and over exact numbers those within
a quantity fit together. -/
theorem convert_family :
    (∀ {α : Type} [Elementary α] (value : α) (source target : String),
      (∀ m n, Converts source target m n →
        convert value source target = ⟨value * m.coefficient / n.coefficient, target⟩) ∧
      ((∀ m n, ¬ Converts source target m n) → convert value source target = ⟨value, source⟩)) ∧
      ∀ {K : Type} [Field K] [LinearOrder K] [IsStrictOrderedRing K] [FloorRing K]
        (numbers : Elementary K), numbers.toScalar = Exact.scalar → 0 < numbers.pi →
          @Coherent K numbers := by
  constructor
  · intro α _ value source target
    constructor
    · intro m n applies
      exact convert_of_converts value applies
    · intro none
      exact convert_of_not_converts value none
  · intro K _ _ _ _ numbers exact pos
    exact Exact.coherent numbers exact pos

/-- A bare number becomes milliseconds and none becomes pixels; over the real numbers an inch and
back is the same length. -/
theorem convert_family_examples :
    convert (2 : Float) "" "ms" =
        ⟨2 * Measure.coefficient .second / Measure.coefficient .millisecond, "ms"⟩ ∧
      convert (5 : Float) "" "px" = ⟨5, ""⟩ ∧
      (Exact.elementary.toScalar = Exact.scalar ∧ 0 < Exact.elementary.pi) ∧
        @Coherent ℝ Exact.elementary := by
  have unknown : Measure.ofSymbol? "px" = none := by decide
  refine ⟨?scaled, ?kept, ⟨rfl, Real.pi_pos⟩, ?exact⟩
  case scaled => exact (convert_family.1 2 "" "ms").1 _ _ (.plain .millisecond)
  case kept => exact (convert_family.1 5 "" "px").2 fun _ _ => not_converts_of_unknown unknown
  case exact => exact convert_family.2 Exact.elementary rfl Real.pi_pos

end StyleFunctions
