import StyleFunctions.Library.Kinds
import StyleFunctions.Library.Lists
import StyleFunctions.Library.Numbers
import StyleFunctions.Library.Texts
import StyleFunctions.Library.Units
import StyleFunctions.Proofs.Library.Regular

/-!
The functions on units, numbers and strings are regular. Of the functions on kinds and lists some answer
truth values, or that there is no such item.
-/

namespace StyleFunctions.Library

open Arguments

variable {α : Type}

/-! ### Units and numbers -/

section

variable [Elementary α]

theorem regular_unit : Regular (unit : Builtin α) := by
  apply regular_of_counts
  intro context arguments
  apply (counts_expect (.between 1 2)).bind
  intro _ _
  apply settles_number.bind
  intro value _
  split
  · exact .pure (answers_number _)
  · apply settles_string.bind
    intro unit _
    exact .pure (answers_number _)

theorem regular_convert : Regular (convert : Builtin α) := by
  apply regular_of_counts
  intro context arguments
  apply (counts_expect (.exactly 2)).bind
  intro _ _
  apply settles_number.bind
  intro value _
  apply settles_string.bind
  intro unit _
  exact .pure (answers_number _)

theorem regular_math (f : MathFunction α) : Regular (math f) := by
  apply regular_of_counts
  intro context arguments
  apply (counts_expect (.exactly 1)).bind
  intro _ _
  apply settles_number.bind
  intro operand _
  exact .pure (answers_number _)

theorem regular_pi : Regular (pi : Builtin α) := by
  apply regular_of_counts
  intro context arguments
  apply (counts_expect (.exactly 0)).bind
  intro _ _
  exact .pure (answers_number _)

theorem regular_mod : Regular (mod : Builtin α) := by
  apply regular_of_counts
  intro context arguments
  apply (counts_expect (.exactly 2)).bind
  intro _ _
  apply settles_number.bind
  intro a _
  apply settles_number.bind
  intro b _
  exact .pure (answers_number _)

theorem regular_pow : Regular (pow : Builtin α) := by
  apply regular_of_counts
  intro context arguments
  apply (counts_expect (.exactly 2)).bind
  intro _ _
  apply settles_number.bind
  intro base _
  apply settles_number.bind
  intro exponent _
  exact .pure (answers_number _)

theorem regular_percentage : Regular (percentage : Builtin α) := by
  apply regular_of_counts
  intro context arguments
  apply (counts_expect (.exactly 1)).bind
  intro _ _
  apply settles_number.bind
  intro x _
  exact .pure (answers_number _)

end

section

variable [Elementary α] [Numeral α]

theorem settles_decimalPlaces {places : α} : Settles (fun _ => True) (decimalPlaces places) := by
  unfold decimalPlaces
  split
  · exact trivial
  · change (Fault.decimalPlaces _).report.code ≠ "ARG_COUNT"
    simp [Fault.report, Report.plain]

theorem regular_round : Regular (round : Builtin α) := by
  apply regular_of_counts
  intro context arguments
  apply (counts_expect (.between 1 2)).bind
  intro _ _
  apply settles_number.bind
  intro x _
  have rounded (places : α) :
      Settles (fun v => v.report? = none ∧ Answers "round" context arguments v)
        (decimalPlaces places >>= fun count => pure (.number (x.roundTo count))) := by
    apply settles_decimalPlaces.bind
    intro count _
    exact .pure (answers_number _)
  dsimp only
  split
  · exact rounded 0
  · apply (settles_number.map fun _ _ => trivial).bind (P := fun _ => True)
    intro places _
    exact rounded places

/-! ### Strings -/

omit [Elementary α] [Numeral α] in
theorem settles_format (engine : Search.Engine) (encoder : Percent.Encoder) (template : String)
    (values : List String) :
    Settles (fun _ => True) (Template.format engine encoder template values) := by
  unfold Template.format
  split
  · exact trivial
  · change (Fault.internal _).report.code ≠ "ARG_COUNT"
    simp [Fault.report, Report.plain, Report.suggesting, Report.rated]

theorem regular_format (engine : Search.Engine) (encoder : Percent.Encoder) :
    Regular (format engine encoder : Builtin α) := by
  apply regular_of_counts
  intro context arguments
  apply (counts_expect (.atLeast 1)).bind
  intro _ _
  apply settles_string.bind
  intro template _
  apply (settles_format engine encoder _ _).bind
  intro text _
  exact .pure (answers_string _)

omit [Numeral α] in
theorem regular_escape (encoder : Percent.Encoder) : Regular (escape encoder : Builtin α) := by
  apply regular_of_counts
  intro context arguments
  apply (counts_expect (.exactly 1)).bind
  intro _ _
  apply settles_string.bind
  intro text _
  exact .pure (answers_string _)

theorem regular_unquote : Regular (unquote : Builtin α) := by
  apply regular_of_counts
  intro context arguments
  apply counts_only.bind
  intro t _
  exact .pure (answers_string _)

end

/-! ### Kinds of values -/

section

variable [Elementary α]

theorem regular_color : Regular (color : Builtin α) := by
  intro context arguments
  apply Outcome.ofExcept
  apply counts_only.bind
  rintro t rfl
  cases t with
  | color c => exact .pure (answers_token (.argument (List.mem_singleton_self _)))
  | string t =>
      simp only [asColor]
      split
      · rename_i c known
        exact .pure (answers_token (.resolved known))
      · change Fault.unknownColor.report.code ≠ "ARG_COUNT"
        simp [Fault.report, Report.plain]
  | number d =>
      change Fault.notString.report.code ≠ "ARG_COUNT"
      simp [Fault.report, Report.plain]
  | call name arguments =>
      change Fault.notString.report.code ≠ "ARG_COUNT"
      simp [Fault.report, Report.plain]

omit [Elementary α] in
theorem outcome_kindTest (test : KindTest) (context : Context α) (arguments : List (Token α)) :
    Outcome ((Arity.exactly 1).allows arguments.length) (fun v => ∃ b, v = .bool b)
      ((kindTest test).call context arguments) := by
  apply Outcome.ofExcept
  apply counts_only.bind
  intro t _
  exact .pure ⟨rfl, _, rfl⟩

omit [Elementary α] in
theorem outcome_isUnit (context : Context α) (arguments : List (Token α)) :
    Outcome ((Arity.exactly 2).allows arguments.length) (fun v => ∃ b, v = .bool b)
      (isUnit.call context arguments) := by
  apply Outcome.ofExcept
  match arguments with
  | [] => exact .miscounted rfl rfl
  | [_] => exact .miscounted rfl rfl
  | [_, .string _] => exact .settled rfl (.pure ⟨rfl, _, rfl⟩)
  | [_, .number _] => exact .settled rfl (.pure ⟨rfl, _, rfl⟩)
  | [_, .color _] => exact .settled rfl (.pure ⟨rfl, _, rfl⟩)
  | [_, .call _ _] => exact .settled rfl (.pure ⟨rfl, _, rfl⟩)
  | t :: u :: w :: rest =>
      have many : (Arity.exactly 2).allows (t :: u :: w :: rest).length = false := by
        simp [Arity.allows]
      cases u <;> exact .miscounted many rfl

/-! ### Lists -/

/-- The last argument is the index, what stands before it are the values of the list. -/
theorem outcome_extract (context : Context α) (arguments : List (Token α)) :
    Outcome ((Arity.atLeast 2).allows arguments.length)
      (fun v => ∃ values index, arguments = values ++ [.number index] ∧
        v = itemAt (listItems context values) index.value)
      (extract.call context arguments) := by
  apply Outcome.ofExcept
  apply (counts_expect (.atLeast 2)).bind
  intro _ _
  apply settles_number.bind
  intro index last
  obtain ⟨values, rfl⟩ := List.getLast?_eq_some_iff.mp last
  rw [List.dropLast_concat]
  refine .pure ⟨?_, values, index, rfl, rfl⟩
  unfold itemAt
  split
  · rfl
  · split <;> rfl

end

end StyleFunctions.Library
