import StyleFunctions.Library.Colors
import StyleFunctions.Proofs.Library.Outcome

/-!
What the library functions answer. A regular function allows as many arguments as its signature tells,
and answers a token of known origin; the few others answer something else as well.
-/

namespace StyleFunctions

/-- A parameter that stands for any number of arguments. -/
def Parameter.isVariadic (p : Parameter) : Bool := "...".toList.isSuffixOf p.name.toList

namespace Signature

/-- How many arguments cannot be left out. -/
def least (s : Signature) : Nat := (s.parameters.filter fun p => !p.isOptional).length

/-- The numbers of arguments that a signature tells. -/
def arity (s : Signature) : Arity :=
  if s.parameters.any Parameter.isVariadic then .atLeast s.least
  else if s.least = s.parameters.length then .exactly s.least
  else .between s.least s.parameters.length

theorem allows_arity_iff (s : Signature) (count : Nat) :
    s.arity.allows count = true ↔
      s.least ≤ count ∧
        (s.parameters.any Parameter.isVariadic = true ∨ count ≤ s.parameters.length) := by
  unfold arity
  split
  · rename_i variadic
    simp [Arity.allows, variadic]
  · rename_i fixed
    rw [Bool.not_eq_true] at fixed
    simp only [fixed, Bool.false_eq_true, false_or]
    split
    · rename_i all
      rw [Arity.allows, beq_iff_eq, all]
      omega
    · simp [Arity.allows]

example : Library.contrastSignature.arity = .between 1 4 := by decide

end Signature

variable {α : Type}

/-- The place of the weight among the arguments of a mixture. -/
def weightPlace? (name : String) : Option Nat :=
  if name = "mix" then some 2 else if name = "tint" ∨ name = "shade" then some 1 else none

section

variable [Elementary α]

/-- The colors that a call can choose from. -/
def Offered (arguments : List (Token α)) (c : Rgba α) : Prop :=
  c = .white ∨ c = .black ∨ .color c ∈ arguments

/-- Where a token that a call answers comes from. -/
inductive Yields (name : String) (context : Context α) (arguments : List (Token α)) :
    Token α → Prop where
  /-- A number or a string is new. -/
  | plain {t : Token α} : t.color? = none → Yields name context arguments t
  | argument {t : Token α} : t ∈ arguments → Yields name context arguments t
  | offered {c : Rgba α} : Offered arguments c → Yields name context arguments (.color c)
  | resolved {word : String} {c : Rgba α} : context.resolveColor word = some c →
      Yields name context arguments (.color c)
  | made {maker : ColorMaker} (x y z : Dimension α) (alpha : α) : maker.name = name →
      Yields name context arguments (.color (ColorMaker.build maker.model x y z alpha))
  | adjusted {c : Rgba α} (adjustment : Adjustment) (amount : α) : .color c ∈ arguments →
      Yields name context arguments (.color (adjustment.apply c amount))
  | mixed {c d : Rgba α} {weight : α} {place : Nat} : Offered arguments c → Offered arguments d →
      weightPlace? name = some place →
      (weight = 0.5 ∨ ∃ w, arguments[place]? = some (.number w) ∧ weight = w.fraction) →
      Yields name context arguments (.color (c.mix d weight))
  | blended {c d : Rgba α} (mode : BlendMode) : .color c ∈ arguments → .color d ∈ arguments →
      Yields name context arguments (.color (mode.blend c d))

/-- An answer that is a token of known origin. -/
def Answers (name : String) (context : Context α) (arguments : List (Token α)) (v : Value α) :
    Prop :=
  ∃ t, v = .token t ∧ Yields name context arguments t

/-- A function that allows the numbers of arguments that its signature tells and answers tokens. -/
def Regular (f : Builtin α) : Prop :=
  ∀ context arguments, Outcome (f.signature.arity.allows arguments.length)
    (Answers f.name context arguments) (f.call context arguments)

variable {name : String} {context : Context α} {arguments : List (Token α)}

theorem answers_token {t : Token α} (yields : Yields name context arguments t) :
    (Value.token t).report? = none ∧ Answers name context arguments (.token t) :=
  ⟨rfl, t, rfl, yields⟩

theorem answers_number (d : Dimension α) :
    (Value.number d).report? = none ∧ Answers name context arguments (.number d) :=
  answers_token (.plain rfl)

theorem answers_string (t : Text) :
    (Value.string t : Value α).report? = none ∧ Answers name context arguments (.string t) :=
  answers_token (.plain rfl)

theorem regular_of_counts {signature : Signature}
    {compute : List (Token α) → Except Fault (Value α)}
    (counts : ∀ context arguments, Counts (signature.arity.allows arguments.length)
      (fun v => v.report? = none ∧ Answers signature.name context arguments v)
      (compute arguments)) :
    Regular (.standalone signature compute) := by
  intro context arguments
  exact .ofExcept (counts context arguments)

omit [Elementary α] in
theorem mem_of_place {t : Token α} {place : Nat} (given : arguments[place]? = some t) :
    t ∈ arguments :=
  List.mem_of_getElem? given

theorem Offered.of_place {c : Rgba α} {place : Nat} (given : arguments[place]? = some (.color c)) :
    Offered arguments c :=
  .inr (.inr (mem_of_place given))

end

end StyleFunctions
