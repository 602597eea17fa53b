import StyleFunctions.Dimension.Literal
import StyleFunctions.Proofs.Decimal.Encoded
import StyleFunctions.Proofs.Text.Solid
import StyleFunctions.Scalar.Double

/-!
What is read as a number with a unit: the texts of the grammar and no others, each in one way, and
what is wrong with the rest.
-/

namespace StyleFunctions.Dimension

open NumberText

/-- A percent sign or any run of ASCII letters, also an empty one. -/
inductive UnitText : List Char → Prop where
  | percent : UnitText ['%']
  | letters {cs : List Char} : (∀ c ∈ cs, c.isAlpha = true) → UnitText cs

/-- A number and a unit that make up a text. -/
structure Splits (t number unit : List Char) (d : Decimal) : Prop where
  text : t = number ++ unit
  number : Literal number d
  unit : UnitText unit

/-- The longest beginning of a text that may be a number. -/
structure LongestNumeric (t number : List Char) : Prop where
  numeric : ∃ n, Numeric n ∧ n.chars = number
  front : number <+: t
  longest : ∀ n, Numeric n → n.chars <+: t → n.chars <+: number

theorem isUnit_iff {cs : List Char} : isUnit cs = true ↔ UnitText cs := by
  simp only [isUnit, Bool.or_eq_true, beq_iff_eq, List.all_eq_true]
  constructor
  · intro either
    rcases either with rfl | all
    · exact .percent
    · exact .letters all
  · intro unit
    cases unit with
    | percent => exact .inl rfl
    | letters all => exact .inr all

theorem isSign_of_isAlpha {c : Char} (letter : c.isAlpha = true) : isSign c = false := by
  rw [Bool.eq_false_iff]
  intro sign
  rcases isSign_iff.mp sign with rfl | rfl <;> exact absurd letter (by decide)

theorem isMantissa_of_isAlpha {c : Char} (letter : c.isAlpha = true) : isMantissa c = false := by
  rw [Bool.eq_false_iff]
  intro mantissa
  rcases isMantissa_iff.mp mantissa with digit | rfl
  · rw [Text.isDigit_of_isAlpha letter] at digit
    cases digit
  · exact absurd letter (by decide)

/-- No exponent starts among letters: where a mark stands, no digit and no sign follows it. -/
theorem spanExponent_of_letters {cs : List Char} (letters : ∀ c ∈ cs, c.isAlpha = true) :
    spanExponent cs = ([], cs) := by
  match cs, letters with
  | [], _ => rfl
  | [c], _ => simp [spanExponent, spanSign]
  | c :: d :: cs, letters =>
      have letter : d.isAlpha = true := letters d (by simp)
      simp [spanExponent, spanSign, isSign_of_isAlpha letter, Text.isDigit_of_isAlpha letter]

/-- A unit is never taken into the number before it. -/
theorem ends_unit {unit : List Char} (formed : UnitText unit) : Ends unit := by
  cases formed with
  | percent =>
      refine ⟨?_, rfl⟩
      intro c head
      cases head
      decide
  | letters all =>
      refine ⟨?_, spanExponent_of_letters all⟩
      intro c head
      have letter := all c (List.mem_of_mem_head? head)
      exact ⟨isSign_of_isAlpha letter, isMantissa_of_isAlpha letter⟩

variable {t number unit : List Char} {d : Decimal}

theorem scan_of_splits (splits : Splits t number unit d) :
    (scan t).1.chars = number ∧ (scan t).2 = unit ∧
      (scan t).1.decimal? = some d := by
  rcases exists_parts_of_literal splits.number with ⟨n, chars, numeric, read⟩
  have cut := scan_append_of_ends numeric (ends_unit splits.unit)
  rw [chars, ← splits.text] at cut
  rw [cut]
  exact ⟨chars, rfl, read⟩

theorem splits_of_scan (read : (scan t).1.decimal? = some d) (formed : UnitText (scan t).2) :
    Splits t (scan t).1.chars (scan t).2 d where
  text := (scan_append t).symm
  number := (decimal?_eq_some_iff (numeric_scan t)).mp read
  unit := formed

/-- A text has one number and one unit at most. -/
theorem splits_inj {number' unit' : List Char} {d' : Decimal} (first : Splits t number unit d)
    (second : Splits t number' unit' d') : number = number' ∧ unit = unit' ∧ d = d' := by
  rcases scan_of_splits first with ⟨numbers, units, values⟩
  rcases scan_of_splits second with ⟨numbers', units', values'⟩
  rw [values] at values'
  exact ⟨numbers.symm.trans numbers', units.symm.trans units', Option.some.inj values'⟩

theorem longestNumeric_scan (t : List Char) : LongestNumeric t (scan t).1.chars where
  numeric := ⟨_, numeric_scan t, rfl⟩
  front := ⟨_, scan_append t⟩
  longest := by
    intro n numeric front
    rcases front with ⟨rest, rfl⟩
    exact prefix_scan numeric rest

variable {α : Type} [Scalar α] {s : String}

theorem ofText_eq (present : Text.trim s.toList ≠ []) :
    ofText (α := α) s =
      match (scan (Text.trim s.toList)).1.decimal? with
      | none => .error (.invalidNumber (.ofList (scan (Text.trim s.toList)).1.chars))
      | some d =>
        if isUnit (scan (Text.trim s.toList)).2 then
          .ok ⟨Scalar.ofDecimal d, .ofList (scan (Text.trim s.toList)).2⟩
        else .error (.invalidUnit (.ofList (scan (Text.trim s.toList)).2)) := by
  rw [ofText, ofChars]
  cases found : Text.trim s.toList with
  | nil => exact absurd found present
  | cons c cs => rfl

theorem ofText_eq_empty_iff :
    ofText (α := α) s = .error .empty ↔ Text.trim s.toList = [] := by
  constructor
  · intro answer
    apply Classical.byContradiction
    intro present
    rw [ofText_eq present] at answer
    split at answer
    · cases answer
    · split at answer <;> cases answer
  · intro empty
    simp only [ofText, ofChars, empty]

theorem ofText_of_splits (splits : Splits (Text.trim s.toList) number unit d) :
    ofText (α := α) s = .ok ⟨Scalar.ofDecimal d, .ofList unit⟩ := by
  rcases scan_of_splits splits with ⟨_, units, read⟩
  have present : Text.trim s.toList ≠ [] := by
    intro empty
    rw [empty] at read
    cases read
  rw [ofText_eq present, read, units]
  exact if_pos (isUnit_iff.mpr splits.unit)

theorem exists_splits_of_ok {x : Dimension α} (answer : ofText s = .ok x) :
    ∃ number unit d, Splits (Text.trim s.toList) number unit d := by
  have present : Text.trim s.toList ≠ [] := by
    intro empty
    rw [ofText_eq_empty_iff.mpr empty] at answer
    cases answer
  rw [ofText_eq present] at answer
  split at answer
  · cases answer
  · next d read =>
      split at answer
      · next formed => exact ⟨_, _, d, splits_of_scan read (isUnit_iff.mp formed)⟩
      · cases answer

theorem readable_iff :
    (∃ d, (scan t).1.decimal? = some d) ↔ ∃ d, Literal (scan t).1.chars d := by
  simp only [decimal?_eq_some_iff (numeric_scan t)]

theorem ofText_eq_invalidNumber_iff (present : Text.trim s.toList ≠ []) {text : String} :
    ofText (α := α) s = .error (.invalidNumber text) ↔
      text = .ofList (scan (Text.trim s.toList)).1.chars ∧
        ¬∃ d, Literal (scan (Text.trim s.toList)).1.chars d := by
  rw [ofText_eq present, ← readable_iff]
  cases read : (scan (Text.trim s.toList)).1.decimal? with
  | none => simp [eq_comm]
  | some d =>
      simp only [Option.some.injEq, exists_eq', not_true_eq_false, and_false, iff_false]
      split <;> simp

theorem ofText_eq_invalidUnit_iff (present : Text.trim s.toList ≠ []) {text : String} :
    ofText (α := α) s = .error (.invalidUnit text) ↔
      text = .ofList (scan (Text.trim s.toList)).2 ∧
        (∃ d, Literal (scan (Text.trim s.toList)).1.chars d) ∧
          ¬UnitText (scan (Text.trim s.toList)).2 := by
  rw [ofText_eq present, ← readable_iff, ← isUnit_iff]
  cases read : (scan (Text.trim s.toList)).1.decimal? with
  | none => simp
  | some d =>
      cases formed : isUnit (scan (Text.trim s.toList)).2 with
      | true => simp
      | false => simp [eq_comm]

/-- The texts that are read are those of the grammar, and what is read is the number and the unit that
make up the text. Any other text is refused for what is wrong with it, after the longest beginning
that may be a number, which ends between two characters. -/
theorem ofText_grammar {s : String} (trimmed : Text.trim s.toList = t) :
    ((∃ x : Dimension α, ofText s = .ok x) ↔ ∃ number unit d, Splits t number unit d) ∧
    (∀ number unit d, Splits t number unit d →
      ofText (α := α) s = .ok ⟨Scalar.ofDecimal d, .ofList unit⟩ ∧
      ∀ number' unit' d', Splits t number' unit' d' →
        number' = number ∧ unit' = unit ∧ d' = d) ∧
    (ofText (α := α) s = .error .empty ↔ t = []) ∧
    ∃ number rest, t = number ++ rest ∧ LongestNumeric t number ∧
      (t ≠ [] →
        (∀ text, ofText (α := α) s = .error (.invalidNumber text) ↔
          text = .ofList number ∧ ¬∃ d, Literal number d) ∧
        ∀ text, ofText (α := α) s = .error (.invalidUnit text) ↔
          text = .ofList rest ∧ (∃ d, Literal number d) ∧ ¬UnitText rest) ∧
      numericLength (String.ofList t).toByteArray.data.toList =
        (String.ofList number).utf8ByteSize ∧
      String.Pos.Raw.IsValid (String.ofList t)
        ⟨numericLength (String.ofList t).toByteArray.data.toList⟩ := by
  subst trimmed
  refine ⟨?accepted, ?value, ofText_eq_empty_iff, ?refused⟩
  case accepted =>
    constructor
    · intro answered
      rcases answered with ⟨x, answer⟩
      exact exists_splits_of_ok answer
    · intro derived
      rcases derived with ⟨number, unit, d, splits⟩
      exact ⟨_, ofText_of_splits splits⟩
  case value =>
    intro number unit d splits
    refine ⟨ofText_of_splits splits, ?_⟩
    intro number' unit' d' other
    exact splits_inj other splits
  case refused =>
    refine ⟨_, _, (scan_append _).symm, longestNumeric_scan _, ?_, numericLength_toByteArray _,
      isValid_numericLength _⟩
    intro present
    constructor
    · intro text
      exact ofText_eq_invalidNumber_iff present
    · intro text
      exact ofText_eq_invalidUnit_iff present

/-- The mark belongs to the unit where no digit follows it. -/
theorem ofText_grammar_mark :
    Text.trim " -1.5e2em ".toList = "-1.5e2em".toList ∧ "-1.5e2em".toList ≠ [] ∧
      Splits "-1.5e2em".toList "-1.5e2".toList "em".toList ⟨true, 15, 1⟩ ∧
      ofText (α := Float) " -1.5e2em " = .ok ⟨Scalar.ofDecimal ⟨true, 15, 1⟩, "em"⟩ := by
  have trimmed : Text.trim " -1.5e2em ".toList = "-1.5e2em".toList := by decide
  have whole : Digits ['1'] := by decide
  have fraction : Digits ['5'] := by decide
  have power : Digits ['2'] := by decide
  have number : Literal "-1.5e2".toList ⟨true, 15, 1⟩ :=
    .mk .minus (.pointed whole (by decide) fraction) (.power (.inl rfl) .none power (by decide))
  have unit : UnitText "em".toList := isUnit_iff.mp (by decide)
  have splits : Splits "-1.5e2em".toList "-1.5e2".toList "em".toList ⟨true, 15, 1⟩ :=
    ⟨by decide, number, unit⟩
  exact ⟨trimmed, by decide, splits, ((ofText_grammar trimmed).2.1 _ _ _ splits).1⟩

end StyleFunctions.Dimension
