import StyleFunctions.Quantity.Conversion

/-! The units that can be converted, and what a conversion gives for any two texts. -/

namespace StyleFunctions

namespace Measure

theorem ofSymbol?_symbol (m : Measure) : ofSymbol? m.symbol = some m := by
  cases m <;> decide

theorem symbol_of_ofSymbol? {symbol : String} {m : Measure} (found : ofSymbol? symbol = some m) :
    symbol = m.symbol := by
  have same : m.symbol = symbol := by simpa using List.find?_some found
  exact same.symm

theorem ofSymbol?_eq_none_iff {symbol : String} :
    ofSymbol? symbol = none ↔ ∀ m : Measure, symbol ≠ m.symbol := by
  constructor
  · intro missing m same
    rw [same, ofSymbol?_symbol] at missing
    cases missing
  · intro other
    cases found : ofSymbol? symbol with
    | none => rfl
    | some m => exact absurd (symbol_of_ofSymbol? found) (other m)

theorem symbol_ne_empty (m : Measure) : m.symbol ≠ "" := by
  cases m <;> decide

end Measure

theorem Quantity.standard_quantity (q : Quantity) : q.standard.quantity = q := by
  cases q <;> rfl

/-- A conversion from one measure to another applies: both measure one quantity, and a plain number
is given in the standard unit of the quantity that is asked for. -/
inductive Converts : String → String → Measure → Measure → Prop where
  | plain (n : Measure) : Converts "" n.symbol n.quantity.standard n
  | measured {m n : Measure} : m.quantity = n.quantity → Converts m.symbol n.symbol m n

theorem not_converts_of_unknown {unit target : String} {m n : Measure}
    (unknown : Measure.ofSymbol? target = none) : ¬ Converts unit target m n := by
  intro applies
  have known : target = n.symbol := by cases applies <;> rfl
  exact Measure.ofSymbol?_eq_none_iff.mp unknown n known

section

variable {α : Type} [Elementary α]

theorem assumedUnit_symbol (m : Measure) (target : String) :
    assumedUnit m.symbol target = m.symbol :=
  if_neg (by simp [m.symbol_ne_empty])

theorem assumedUnit_plain (n : Measure) :
    assumedUnit "" n.symbol = n.quantity.standard.symbol := by
  simp [assumedUnit, Quantity.ofUnit?, Measure.ofSymbol?_symbol, Quantity.defaultUnit]

theorem convert_of_assumed (value : α) {unit : String} {m n : Measure}
    (assumed : assumedUnit unit n.symbol = m.symbol) (same : m.quantity = n.quantity) :
    convert value unit n.symbol = ⟨value * m.coefficient / n.coefficient, n.symbol⟩ := by
  simp [convert, assumed, Measure.ofSymbol?_symbol, same]

theorem convert_of_converts (value : α) {unit target : String} {m n : Measure}
    (applies : Converts unit target m n) :
    convert value unit target = ⟨value * m.coefficient / n.coefficient, target⟩ := by
  cases applies with
  | plain => exact convert_of_assumed value (assumedUnit_plain n) n.quantity.standard_quantity
  | measured same => exact convert_of_assumed value (assumedUnit_symbol m _) same

theorem assumedUnit_of_not_converts {unit target : String}
    (none : ∀ m n, ¬ Converts unit target m n) : assumedUnit unit target = unit := by
  by_cases plain : unit = ""
  · -- A target with a measure would take the plain number.
    cases found : Measure.ofSymbol? target with
    | none => simp [assumedUnit, Quantity.ofUnit?, plain, found]
    | some n =>
        rw [plain, Measure.symbol_of_ofSymbol? found] at none
        exact absurd (.plain n) (none _ n)
  · simp [assumedUnit, plain]

/-- The unit that a plain number is taken to have is not left on it. -/
theorem convert_of_not_converts (value : α) {unit target : String}
    (none : ∀ m n, ¬ Converts unit target m n) : convert value unit target = ⟨value, unit⟩ := by
  unfold convert
  rw [assumedUnit_of_not_converts none]
  dsimp only
  split
  case h_1 m n source found =>
    have apart : ¬ m.quantity = n.quantity := by
      intro same
      rw [Measure.symbol_of_ofSymbol? source, Measure.symbol_of_ofSymbol? found] at none
      exact none m n (.measured same)
    rw [if_neg apart]
  case h_2 => rfl

/-- A value in the standard unit of the quantity that its own unit measures. -/
theorem convert_defaultUnit (value : α) (m : Measure) :
    (convert value m.symbol m.quantity.defaultUnit).value =
      value * m.coefficient / m.quantity.standard.coefficient := by
  have applies : Converts m.symbol m.quantity.defaultUnit m m.quantity.standard :=
    .measured m.quantity.standard_quantity.symm
  rw [convert_of_converts value applies]

end

end StyleFunctions
