import StyleFunctions.Proofs.Binary64.Neighbor
import StyleFunctions.Proofs.Quantity.Normalized
import StyleFunctions.Quantity.MathFunction

/-!
Plain numbers as angles. They are converted to full turns and back to radians, which does not always
give them back, while an operand that is given in radians is left alone.
-/

namespace StyleFunctions

namespace UnitRule

variable {α : Type} [Elementary α]

/-- A number after the way to full turns and back. -/
def detour (value : α) : α := value * Measure.coefficient .radian / Measure.coefficient .radian

theorem radians_rad (value : α) : radians ⟨value, "rad"⟩ = value := if_pos rfl

theorem radians_plain (value : α) : radians ⟨value, ""⟩ = detour value := by
  have applies : Converts "" "rad" .radian .radian := .plain .radian
  have converted : (convert value "" "rad").value = detour value := by
    rw [convert_of_converts value applies, detour]
  exact converted

theorem apply_angle (operation : α → α) {rule : UnitRule} (angle : rule ≠ .keep)
    (operand : Dimension α) :
    ∃ unit, rule.resultUnit? = some unit ∧
      rule.apply operation operand = ⟨detour (operation (radians operand)), unit⟩ := by
  have applies : Converts "rad" "rad" .radian .radian := .measured (m := .radian) rfl
  have converted (value : α) : (convert value "rad" "rad").value = detour value := by
    rw [convert_of_converts value applies, detour]
  cases rule with
  | keep => exact absurd rfl angle
  | ofAngle => exact ⟨"", rfl, by rw [← converted]; rfl⟩
  | toAngle => exact ⟨"rad", rfl, by rw [← converted]; rfl⟩

/-- A plain operand is read as the angle at the end of the detour. -/
theorem apply_plain (operation : α → α) {rule : UnitRule} (angle : rule ≠ .keep) (value : α) :
    rule.apply operation ⟨value, ""⟩ = rule.apply operation ⟨detour value, "rad"⟩ := by
  rcases apply_angle operation angle ⟨value, ""⟩ with ⟨unit, result, plain⟩
  rcases apply_angle operation angle ⟨detour value, "rad"⟩ with ⟨other, same, given⟩
  rw [result] at same
  cases same
  rw [plain, given, radians_plain, radians_rad]

/-- Plain operands are read as radians where the detour gives them back, and nowhere else. -/
theorem apply_plain_iff {rule : UnitRule} (angle : rule ≠ .keep) (value : Float) :
    (∀ operation : Float → Float,
      rule.apply operation ⟨value, ""⟩ = rule.apply operation ⟨value, "rad"⟩) ↔
      detour value = value := by
  constructor
  · intro same
    apply Decidable.byContradiction
    intro moved
    -- An operation that tells the two operands apart, by results that stay apart.
    let test (x : Float) : Float := if x = value then 0 else 1
    have apart : (detour 0 : Float) ≠ detour 1 := by decide +kernel
    rcases apply_angle test angle ⟨value, ""⟩ with ⟨unit, result, plain⟩
    rcases apply_angle test angle ⟨value, "rad"⟩ with ⟨other, again, given⟩
    rw [result] at again
    cases again
    have equal := same test
    rw [plain, given, radians_plain, radians_rad] at equal
    have values : detour (test (detour value)) = detour (test value) :=
      congrArg Dimension.value equal
    have first : test (detour value) = 1 := if_neg moved
    have second : test value = 0 := if_pos rfl
    rw [first, second] at values
    exact apart values.symm
  · intro back operation
    rw [apply_plain operation angle, back]

section

open Binary64

/-- A radian is more than an eighth of a full turn. -/
theorem radian_least : one ≤ 8 * units (Measure.coefficient .radian) := by
  decide +kernel

theorem key_detour {value : Float} (finite : value.isFinite = true) :
    key (detour value) = signed (isNegative value)
      (Fraction.scaledBits (Measure.coefficient .radian) (Measure.coefficient .radian)
        (magnitudeBits value)) := by
  have part := Measure.radian.fraction
  have number : Fraction.scaledBits (Measure.coefficient .radian) (Measure.coefficient .radian)
      (magnitudeBits value) ≤ infinityBits := bitsOfRatio_le _ _
  rw [detour, part.mul_div_eq part finite, key, isNegative_ofMagnitudeBits _ number,
    magnitudeBits_ofMagnitudeBits _ number]

/-- The radians of a plain number are at most four doubles away from it, and at most one unless the
number is very small. -/
theorem detour_near {value : Float} (finite : value.isFinite = true) :
    (key (detour value) - key value).natAbs ≤ 4 ∧
      (2 ^ 55 ≤ units value → (key (detour value) - key value).natAbs ≤ 1) := by
  have near := Measure.radian.fraction.scaledBits_near radian_least ((isFinite_iff value).mp finite)
  have parts : key value = signed (isNegative value) (magnitudeBits value) := rfl
  rw [key_detour finite, parts]
  unfold signed units at *
  generalize Fraction.scaledBits _ _ (magnitudeBits value) = back at *
  split <;> omega

end

/-- What a plain operand of an angle function is read as, when that is the operand itself, and how
far from it it is otherwise. -/
theorem plain_operand {rule : UnitRule} (angle : rule ≠ .keep) (value : Float) :
    (∀ operation : Float → Float,
      rule.apply operation ⟨value, ""⟩ = rule.apply operation ⟨detour value, "rad"⟩) ∧
      ((∀ operation : Float → Float,
        rule.apply operation ⟨value, ""⟩ = rule.apply operation ⟨value, "rad"⟩) ↔
        detour value = value) ∧
      (value.isFinite = true →
        (Binary64.key (detour value) - Binary64.key value).natAbs ≤ 4 ∧
          (2 ^ 55 ≤ Binary64.units value →
            (Binary64.key (detour value) - Binary64.key value).natAbs ≤ 1)) := by
  refine ⟨?_, apply_plain_iff angle value, detour_near⟩
  intro operation
  exact apply_plain operation angle value

/-- Twelve radians are twelve, with a unit and without one. -/
theorem plain_operand_twelve :
    UnitRule.ofAngle ≠ .keep ∧ (detour 12 : Float) = 12 ∧
      (∀ operation : Float → Float,
        ofAngle.apply operation ⟨12, ""⟩ = ofAngle.apply operation ⟨12, "rad"⟩) ∧
      (12 : Float).isFinite = true ∧ 2 ^ 55 ≤ Binary64.units 12 ∧
      (Binary64.key (detour 12) - Binary64.key 12).natAbs ≤ 1 := by
  have angle : UnitRule.ofAngle ≠ .keep := by decide
  have back : (detour 12 : Float) = 12 := by decide +kernel
  have finite : (12 : Float).isFinite = true := by decide +kernel
  have large : 2 ^ 55 ≤ Binary64.units 12 := by decide +kernel
  rcases plain_operand angle 12 with ⟨_, same, near⟩
  exact ⟨angle, back, same.mpr back, finite, large, (near finite).2 large⟩

/-- Thirteen is read as the double before thirteen, which is visible in its integer part. -/
theorem plain_thirteen_is_not_radians :
    ¬ ∀ (operation : Float → Float) (rule : UnitRule), rule ≠ .keep → ∀ value : Float,
      rule.apply operation ⟨value, ""⟩ = rule.apply operation ⟨value, "rad"⟩ := by
  intro same
  have values := congrArg Dimension.value (same Scalar.floor .ofAngle (by decide) 13)
  have apart : (ofAngle.apply Scalar.floor ⟨13, ""⟩ : Dimension Float).value ≠
      (ofAngle.apply Scalar.floor ⟨13, "rad"⟩ : Dimension Float).value := by
    decide +kernel
  exact apart values

end UnitRule

end StyleFunctions
