import StyleFunctions.Proofs.Binary64.Shortest
import StyleFunctions.Proofs.Dimension.Grammar

/-! Numbers with a unit come back from their written form. -/

namespace StyleFunctions.Dimension

open NumberText
open Text (Solid solid_append solid_cons)
open Binary64 (magnitudeBits isNegative ofMagnitudeBits)

theorem solid_of_digits {digits : List Char} (all : Digits digits) : Solid digits := by
  intro c member
  exact Text.isBlank_of_isDigit (all c member)

theorem solid_of_sign {sign : List Char} {negative : Bool} (signed : Sign sign negative) :
    Solid sign := by
  cases signed <;> decide

theorem solid_of_mantissa {mantissa whole fraction : List Char}
    (formed : Mantissa mantissa whole fraction) : Solid mantissa := by
  intro c member
  rcases digit_or_point_of_mantissa formed c member with digit | rfl
  · exact Text.isBlank_of_isDigit digit
  · decide

theorem solid_of_exponent {exponent : List Char} {power : Int} (raised : Exponent exponent power) :
    Solid exponent := by
  cases raised with
  | none => decide
  | power marked signed all _ =>
      rw [solid_cons, solid_append]
      refine ⟨?_, solid_of_sign signed, solid_of_digits all⟩
      rcases marked with rfl | rfl <;> decide

theorem solid_of_literal {cs : List Char} {d : Decimal} (literal : Literal cs d) : Solid cs := by
  cases literal with
  | mk signed formed raised =>
      rw [solid_append, solid_append]
      exact ⟨⟨solid_of_sign signed, solid_of_mantissa formed⟩, solid_of_exponent raised⟩

theorem solid_of_unit {unit : List Char} (formed : UnitText unit) : Solid unit := by
  cases formed with
  | percent => decide
  | letters all =>
      intro c member
      exact Text.isBlank_of_isAlpha (all c member)

variable {α : Type} [Scalar α]

/-- A number and a unit written side by side are read as they were written. -/
theorem ofText_append {number unit : String} {d : Decimal} (literal : Literal number.toList d)
    (formed : UnitText unit.toList) :
    ofText (α := α) (number ++ unit) = .ok ⟨Scalar.ofDecimal d, unit⟩ := by
  have solid : Solid (number ++ unit).toList := by
    rw [String.toList_append, solid_append]
    exact ⟨solid_of_literal literal, solid_of_unit formed⟩
  have splits : Splits (Text.trim (number ++ unit).toList) number.toList unit.toList d :=
    ⟨by rw [Text.trim_of_solid solid, String.toList_append], literal, formed⟩
  rw [ofText_of_splits splits, String.ofList_toList]

theorem beq_zero_iff {v : Float} (finite : v.isFinite = true) :
    (v == 0) = true ↔ magnitudeBits v = 0 := by
  rw [Binary64.beq_iff (Binary64.isNaN_of_isFinite finite) rfl, ← Binary64.key_eq_zero]
  rfl

theorem numberText_eq (v : Float) :
    numberText v = if v == 0 then "0" else .ofList (Binary64.text v) := rfl

theorem literal_zero : Literal "0".toList ⟨false, 0, 0⟩ :=
  have digits : Digits ['0'] := by decide
  .mk .none (.whole digits (by decide)) .none

/-- The written form of a finite double is a number of the grammar, and minus zero is written as
zero. -/
theorem exists_literal_numberText {v : Float} (finite : v.isFinite = true) :
    ∃ d, Literal (numberText v).toList d ∧
      Scalar.ofDecimal d = if isNegative v && v == 0 then 0 else v := by
  rw [numberText_eq]
  by_cases zero : (v == 0) = true
  · have bits := (beq_zero_iff finite).mp zero
    have self : ofMagnitudeBits (isNegative v) (magnitudeBits v) = v :=
      Binary64.ofMagnitudeBits_self (bits ▸ Nat.zero_le _)
    rw [bits] at self
    refine ⟨⟨false, 0, 0⟩, ?_, ?_⟩
    · rw [if_pos zero]
      exact literal_zero
    · rw [zero, Bool.and_true]
      cases sign : isNegative v with
      | true => rfl
      | false =>
          rw [sign] at self
          exact self
  · rcases Binary64.exists_literal_text finite (mt (beq_zero_iff finite).mpr zero) with
      ⟨d, literal, value⟩
    refine ⟨d, ?_, ?_⟩
    · rw [if_neg zero, String.toList_ofList]
      exact literal
    · rw [Bool.eq_false_iff.mpr zero, Bool.and_false]
      exact value

/-- What is written for a finite double with a unit is read as that double with that unit, whatever
letters the unit begins with; only the sign of zero is lost. -/
theorem ofText_text {v : Float} {unit : String} (finite : v.isFinite = true)
    (formed : UnitText unit.toList) :
    ofText (text ⟨v, unit⟩) = .ok ⟨if isNegative v && v == 0 then 0 else v, unit⟩ := by
  rcases exists_literal_numberText finite with ⟨d, literal, value⟩
  rw [text, ofText_append literal formed, value]

/-- The unit keeps its first letter though an exponent could begin with it. -/
theorem ofText_text_em :
    let d : Dimension Float := ⟨-1.5, "em"⟩
    d.value.isFinite = true ∧ UnitText d.unit.toList ∧ text d = "-1.5em" ∧ ofText (text d) = .ok d := by
  intro d
  have finite : (-1.5 : Float).isFinite = true := by rfl
  have formed : UnitText "em".toList := isUnit_iff.mp (by decide)
  have written : text d = "-1.5em" := by decide +kernel
  exact ⟨finite, formed, written, ofText_text finite formed⟩

end StyleFunctions.Dimension
