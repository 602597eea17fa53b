import StyleFunctions.Proofs.Library.Roles
import StyleFunctions.Scalar.Double

/-!
The numbers of arguments that are told about a function are the ones it takes. Only `length`, which
takes any number, and `data-uri`, which never looks, say otherwise.
-/

namespace StyleFunctions

open Library

variable {α : Type} [Elementary α] [Numeral α] {f : Builtin α} {context : Context α}
  {arguments : List (Token α)}

/-- The end of a call depends on the published number of arguments as that of a regular function does.
-/
theorem outcome_of_mem (member : f ∈ (standardRegistry : Registry α).builtins)
    (counted : f.name ≠ "length" ∧ f.name ≠ "data-uri") (called : ¬ IsFilter f.name arguments) :
    Outcome (f.signature.arity.allows arguments.length) (fun _ => True) (f.call context arguments) := by
  have begins (named : f.name = "saturate" ∨ f.name = "contrast") :
      startsWithColor arguments = true := by
    rw [← Bool.not_eq_false, startsWithColor_eq_false_iff]
    intro other
    exact called ⟨named, other⟩
  cases role_of_mem member with
  | regular regular => exact (regular context arguments).mono fun _ _ => trivial
  | saturate => exact (outcome_saturate context (begins (.inl rfl))).mono fun _ _ => trivial
  | contrast => exact (outcome_contrast context (begins (.inr rfl))).mono fun _ _ => trivial
  | extreme extreme =>
      have ends := (extreme.outcome_select arguments).mono (Q := fun _ => True) fun _ _ => trivial
      cases extreme <;> exact ends
  | extract => exact (outcome_extract context arguments).mono fun _ _ => trivial
  | length => exact absurd rfl counted.1
  | kindTest test => exact (outcome_kindTest test context arguments).mono fun _ _ => trivial
  | isUnit => exact (outcome_isUnit context arguments).mono fun _ _ => trivial
  | dataUri => exact absurd rfl counted.2

/-- A call is refused for the number of its arguments exactly where this is below the number of
parameters that cannot be left out, or above the number of all of them with none that stands for any
number. A filter of the style sheet is left as it is written instead. -/
theorem evaluate_reports_count_iff (member : f ∈ (standardRegistry : Registry α).builtins)
    (counted : f.name ≠ "length" ∧ f.name ≠ "data-uri") (context : Context α)
    (arguments : List (Token α)) :
    (IsFilter f.name arguments → evaluate context f.name arguments = .unresolved) ∧
    (¬ IsFilter f.name arguments →
      ((∃ r, evaluate context f.name arguments = .error r ∧ r.code = "ARG_COUNT") ↔
        arguments.length < f.signature.least ∨
          f.signature.parameters.any Parameter.isVariadic = false ∧
            f.signature.parameters.length < arguments.length)) := by
  refine ⟨evaluate_filter, fun called => ?_⟩
  rw [evaluate_of_mem member, (outcome_of_mem member counted called).reports_count_iff,
    ← Bool.not_eq_true, Signature.allows_arity_iff, not_and_or, not_or, Nat.not_le, Nat.not_le,
    Bool.not_eq_true]

/-- `mix` of one number is refused, although that is no color either, and so is `contrast` with five
arguments; `saturate` without any is left as it is written. -/
theorem evaluate_reports_count_iff_samples :
    let one : List (Token Float) := [.number ⟨Scalar.ofNat 1, ""⟩]
    let five : List (Token Float) :=
      [.color .black, .color .black, .color .white, .keyword "x", .keyword "y"]
    (∃ r, evaluate .standard "mix" one = .error r ∧ r.code = "ARG_COUNT") ∧
    (∃ r, evaluate .standard "contrast" five = .error r ∧ r.code = "ARG_COUNT") ∧
    evaluate .standard "saturate" ([] : List (Token Float)) = .unresolved := by
  intro one five
  have mix : (mix : Builtin Float) ∈ standardRegistry.builtins :=
    mem_standardRegistry.mpr ⟨.colors, by simp [Collection.builtins, colors]⟩
  refine ⟨?_, ?_, ?_⟩
  · have called : ¬ IsFilter "mix" one := by
      rintro ⟨named, _⟩
      exact absurd named (by decide)
    have counts := (evaluate_reports_count_iff mix ⟨by decide, by decide⟩ .standard one).2 called
    exact counts.mpr (.inl (by decide))
  · have called : ¬ IsFilter "contrast" five := by
      rintro ⟨_, other⟩
      exact other .black rfl
    have counts :=
      (evaluate_reports_count_iff contrast_mem ⟨by decide, by decide⟩ .standard five).2 called
    exact counts.mpr (.inr ⟨by decide, by decide⟩)
  · have filter : IsFilter "saturate" ([] : List (Token Float)) := ⟨.inl rfl, by simp⟩
    exact (evaluate_reports_count_iff saturate_mem ⟨by decide, by decide⟩ .standard []).1 filter

end StyleFunctions
