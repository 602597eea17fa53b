import StyleFunctions.Arguments

/-!
How a call ends. A function counts its arguments before it reads them, so a report about their number
comes from the count alone, and what is read afterwards can only fail for other reasons.
-/

namespace StyleFunctions

variable {α β γ : Type} {P : β → Prop} {Q : γ → Prop} {allowed : Bool}

/-- A computation that ends with a value of which `P` holds, or with a fault that does not lie in the
number of arguments. -/
def Settles (P : β → Prop) : Except Fault β → Prop
  | .ok b => P b
  | .error fault => fault.report.code ≠ "ARG_COUNT"

namespace Settles

theorem pure {b : β} (holds : P b) : Settles P (.ok b) := holds

theorem mono {P Q : β → Prop} {x : Except Fault β} (settles : Settles P x)
    (weaker : ∀ b, P b → Q b) : Settles Q x := by
  cases x with
  | error fault => exact settles
  | ok b => exact weaker b settles

theorem bind {x : Except Fault β} {next : β → Except Fault γ} (first : Settles P x)
    (rest : ∀ b, P b → Settles Q (next b)) : Settles Q (x >>= next) := by
  cases x with
  | error fault => exact first
  | ok b => exact rest b first

theorem map {x : Except Fault β} {f : β → γ} (first : Settles P x) (holds : ∀ b, P b → Q (f b)) :
    Settles Q (f <$> x) := by
  cases x with
  | error fault => exact first
  | ok b => exact holds b first

end Settles

/-- A computation that settles when the number of arguments is allowed, and reports the number when it
is not. -/
inductive Counts (allowed : Bool) (P : β → Prop) : Except Fault β → Prop where
  | settled {x : Except Fault β} : allowed = true → Settles P x → Counts allowed P x
  | miscounted {fault : Fault} : allowed = false → fault.report.code = "ARG_COUNT" →
      Counts allowed P (.error fault)

namespace Counts

theorem bind {x : Except Fault β} {next : β → Except Fault γ} (first : Counts allowed P x)
    (rest : ∀ b, P b → Settles Q (next b)) : Counts allowed Q (x >>= next) := by
  cases first with
  | settled permitted settles => exact .settled permitted (settles.bind rest)
  | miscounted refused about => exact .miscounted refused about

theorem map {x : Except Fault β} {f : β → γ} (first : Counts allowed P x)
    (holds : ∀ b, P b → Q (f b)) : Counts allowed Q (f <$> x) := by
  cases first with
  | settled permitted settles => exact .settled permitted (settles.map holds)
  | miscounted refused about => exact .miscounted refused about

end Counts

/-- The end of a call: an answer of which `P` holds, or a report. The report is about the number of
arguments exactly when that is not allowed. -/
inductive Outcome (allowed : Bool) (P : Value α → Prop) : Value α → Prop where
  | answered {v : Value α} : allowed = true → v.report? = none → P v → Outcome allowed P v
  | refused {r : Report} : allowed = true → r.code ≠ "ARG_COUNT" → Outcome allowed P (.error r)
  | miscounted {r : Report} : allowed = false → r.code = "ARG_COUNT" →
      Outcome allowed P (.error r)

namespace Outcome

variable {P Q : Value α → Prop} {v : Value α}

theorem ofExcept {x : Except Fault (Value α)}
    (counts : Counts allowed (fun v => v.report? = none ∧ P v) x) :
    Outcome allowed P (.ofExcept x) := by
  cases counts with
  | miscounted refused about => exact .miscounted refused about
  | settled permitted settles =>
      cases x with
      | error fault => exact .refused permitted settles
      | ok v => exact .answered permitted settles.1 settles.2

theorem mono (ends : Outcome allowed P v) (weaker : ∀ v, P v → Q v) : Outcome allowed Q v := by
  cases ends with
  | answered permitted answer holds => exact .answered permitted answer (weaker _ holds)
  | refused permitted other => exact .refused permitted other
  | miscounted refused about => exact .miscounted refused about

/-- What is no report is an answer. -/
theorem holds (ends : Outcome allowed P v) (answer : v.report? = none) : P v := by
  cases ends with
  | answered _ _ holds => exact holds
  | refused _ _ => cases answer
  | miscounted _ _ => cases answer

theorem reports_count_iff (ends : Outcome allowed P v) :
    (∃ r, v = .error r ∧ r.code = "ARG_COUNT") ↔ allowed = false := by
  constructor
  · rintro ⟨r, rfl, about⟩
    cases ends with
    | answered _ answer _ => cases answer
    | refused _ other => exact absurd about other
    | miscounted refused _ => exact refused
  · intro refused
    cases ends with
    | answered permitted _ _ => rw [permitted] at refused; cases refused
    | refused permitted _ => rw [permitted] at refused; cases refused
    | miscounted _ about => exact ⟨_, rfl, about⟩

end Outcome

namespace Arguments

variable {function parameter : String} {arguments : List (Token α)} {argument : Option (Token α)}

theorem counts_expect (arity : Arity) :
    Counts (arity.allows arguments.length) (fun _ => True) (expect function arity arguments) := by
  unfold expect
  split
  · rename_i permitted
    exact .settled permitted trivial
  · rename_i refused
    exact .miscounted (Bool.eq_false_iff.mpr refused) rfl

theorem counts_only :
    Counts ((Arity.exactly 1).allows arguments.length) (fun t => arguments = [t])
      (only function arguments) := by
  match arguments with
  | [] => exact .miscounted rfl rfl
  | [t] => exact .settled rfl rfl
  | t :: u :: rest =>
      refine .miscounted ?_ rfl
      rw [Arity.allows, beq_eq_false_iff_ne]
      simp

theorem settles_mismatch {expected : TokenKind} :
    Settles P (.error (mismatch function parameter expected argument)) := by
  change (mismatch function parameter expected argument).report.code ≠ "ARG_COUNT"
  simp [mismatch, Fault.report, Report.plain]

theorem settles_number :
    Settles (fun d => argument = some (.number d)) (number function parameter argument) := by
  unfold number
  split
  · exact rfl
  · exact settles_mismatch

theorem settles_color :
    Settles (fun c => argument = some (.color c)) (color function parameter argument) := by
  unfold color
  split
  · exact rfl
  · exact settles_mismatch

theorem settles_string :
    Settles (fun t => argument = some (.string t)) (string function parameter argument) := by
  unfold string
  split
  · exact rfl
  · exact settles_mismatch

/-- What is read in place of a color that may be left out. -/
theorem settles_colorOr {default : Rgba α} :
    Settles (fun c => c = default ∨ argument = some (.color c))
      (colorOr function parameter default argument) := by
  unfold colorOr
  split
  · exact Or.inl rfl
  · exact settles_color.mono fun c given => .inr given

/-- What is read in place of a fraction that may be left out. -/
theorem settles_fractionOr [Scalar α] {default : α} :
    Settles (fun x => x = default ∨ ∃ d, argument = some (.number d) ∧ x = d.fraction)
      (fractionOr function parameter default argument) := by
  unfold fractionOr
  split
  · exact Or.inl rfl
  · exact settles_number.map fun d given => .inr ⟨d, given, rfl⟩

end Arguments

end StyleFunctions
