import StyleFunctions.Proofs.Extreme.Rank
import StyleFunctions.Proofs.Quantity.Measure

/-! The groups of comparable values, and the keys that values are compared by in their group. -/

namespace StyleFunctions

namespace Token

variable {α : Type} [Elementary α]

/-- The group of a value and its key: the content of a string, the luma of a color, the number of
standard units of a measured quantity, and any other number as it is. A call has neither. -/
inductive Compares : Token α → ComparisonGroup → SortKey α → Prop where
  | string (t : Text) : Compares (.string t) .string (.text t.content)
  | color (c : Rgba α) : Compares (.color c) .color (.number c.luma)
  | measured {d : Dimension α} (m : Measure) : d.unit = m.symbol →
      Compares (.number d) (.quantity m.quantity)
        (.number (d.value * m.coefficient / m.quantity.standard.coefficient))
  | plain {d : Dimension α} : (∀ m : Measure, d.unit ≠ m.symbol) →
      Compares (.number d) .number (.number d.value)

variable {t : Token α} {group other : ComparisonGroup} {key otherKey : SortKey α}

theorem classify?_measured {d : Dimension α} {m : Measure} (unit : d.unit = m.symbol) :
    (Token.number d).classify? = some (.quantity m.quantity,
      .number (d.value * m.coefficient / m.quantity.standard.coefficient)) := by
  simp [classify?, Quantity.ofUnit?, unit, Measure.ofSymbol?_symbol, convert_defaultUnit]

theorem classify?_plain {d : Dimension α} (other : ∀ m : Measure, d.unit ≠ m.symbol) :
    (Token.number d).classify? = some (.number, .number d.value) := by
  simp [classify?, Quantity.ofUnit?, Measure.ofSymbol?_eq_none_iff.mpr other]

theorem classify?_eq_some_iff : t.classify? = some (group, key) ↔ Compares t group key := by
  constructor
  · intro known
    cases t with
    | string t => cases known; exact .string t
    | color c => cases known; exact .color c
    | call name arguments => cases known
    | number d =>
        cases found : Measure.ofSymbol? d.unit with
        | some m =>
            have unit := Measure.symbol_of_ofSymbol? found
            rw [classify?_measured unit] at known
            cases known
            exact .measured m unit
        | none =>
            have other := Measure.ofSymbol?_eq_none_iff.mp found
            rw [classify?_plain other] at known
            cases known
            exact .plain other
  · intro compares
    cases compares with
    | string t => rfl
    | color c => rfl
    | measured m unit => exact classify?_measured unit
    | plain other => exact classify?_plain other

/-- A value has one group and one key. -/
theorem compares_inj (first : Compares t group key) (second : Compares t other otherKey) :
    group = other ∧ key = otherKey := by
  rw [← classify?_eq_some_iff] at first second
  rw [first] at second
  simpa using second

theorem exists_compares_iff :
    (∃ group key, Compares t group key) ↔ ∀ name arguments, t ≠ .call name arguments := by
  constructor
  · intro known name arguments same
    rcases known with ⟨group, key, compares⟩
    subst same
    cases compares
  · intro comparable
    cases t with
    | string t => exact ⟨_, _, .string t⟩
    | color c => exact ⟨_, _, .color c⟩
    | call name arguments => exact absurd rfl (comparable name arguments)
    | number d =>
        cases found : Measure.ofSymbol? d.unit with
        | some m => exact ⟨_, _, .measured m (Measure.symbol_of_ofSymbol? found)⟩
        | none => exact ⟨_, _, .plain (Measure.ofSymbol?_eq_none_iff.mp found)⟩

/-- The keys of one group are of one kind. -/
theorem sameKind_of_compares {t u : Token Float} {k l : SortKey Float} (first : Compares t group k)
    (second : Compares u group l) : SortKey.SameKind k l := by
  cases first with
  | string s =>
      cases second with
      | string t => exact .text _ _
  | color c =>
      cases second with
      | color d => exact .number _ _
  | plain _ =>
      cases second with
      | plain _ => exact .number _ _
  | measured m _ =>
      generalize same : ComparisonGroup.quantity m.quantity = group at second
      cases second with
      | measured n _ => exact .number _ _
      | string _ => cases same
      | color _ => cases same
      | plain _ => cases same

end Token

end StyleFunctions
