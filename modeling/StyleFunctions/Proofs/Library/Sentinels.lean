import StyleFunctions.Proofs.Extreme.Position
import StyleFunctions.Proofs.Library.Lists
import StyleFunctions.Proofs.Library.Roles

/-!
When a call is left as it is written, when there is no such item, and when the answer is a truth value.
Each of the three has one meaning, whatever the function.
-/

namespace StyleFunctions

open Library
open Binary64 (Denotes)
open Token (Compares)

variable {context : Context Float} {name : String} {arguments : List (Token Float)}

/-- Several values that have no common group: one of them is a call, or two are of different groups. -/
def Incomparable (ts : List (Token Float)) : Prop :=
  2 ≤ ts.length ∧
    ((∃ name arguments, .call name arguments ∈ ts) ∨
      ∃ t ∈ ts, ∃ u ∈ ts, ∃ g h k l, Compares t g k ∧ Compares u h l ∧ g ≠ h)

/-- A call that is no business of the functions. -/
def KeptAsWritten (name : String) (arguments : List (Token Float)) : Prop :=
  name ∉ (standardRegistry : Registry Float).names ∨ IsFilter name arguments ∨
    (name = "min" ∨ name = "max") ∧ Incomparable arguments

/-- A call of `extract` whose index does not count one of the items. -/
def LacksItem (context : Context Float) (name : String) (arguments : List (Token Float)) : Prop :=
  name = "extract" ∧ ∃ values index, values ≠ [] ∧ arguments = values ++ [.number index] ∧
    ¬ ∃ n, Denotes index.value n ∧ 1 ≤ n ∧ n ≤ itemCount context values

/-- A test of the kind or the unit of a value. -/
def IsTest (name : String) (arguments : List (Token Float)) : Prop :=
  name ∈ KindTest.all.map KindTest.name ∧ arguments.length = 1 ∨
    name = "isunit" ∧ arguments.length = 2

/-! ### Single functions -/

theorem Extreme.select_eq_unresolved {extreme : Extreme} {ts : List (Token Float)} :
    extreme.select ts = .unresolved ↔ Incomparable ts := by
  match ts with
  | [] => simp [select, Incomparable]
  | [t] => simp [select, Incomparable]
  | t :: u :: ts =>
      have several : 2 ≤ (t :: u :: ts).length := by simp
      rw [select_eq_unresolved_iff several, not_oneGroup_iff (List.cons_ne_nil _ _), Incomparable,
        and_iff_right several]

/-- There is no item where the index does not count one. -/
theorem itemAt_eq_undefined_iff {values : List (Token Float)} {index : Float} :
    itemAt (listItems context values) index = .undefined ↔
      ¬ ∃ n, Denotes index n ∧ 1 ≤ n ∧ n ≤ itemCount context values := by
  have found : (∃ item, itemAt (listItems context values) index = .token item) ↔
      ∃ n, Denotes index n ∧ 1 ≤ n ∧ n ≤ itemCount context values := by
    have counted (n : Nat) : (∃ item, Item context values n item) ↔
        1 ≤ n ∧ n ≤ itemCount context values := exists_item_iff
    simp only [itemAt_eq_token_iff, ← counted, item_iff]
    constructor
    · rintro ⟨item, n, whole, there⟩
      exact ⟨n + 1, whole, item, n, rfl, there⟩
    · rintro ⟨_, whole, item, n, rfl, there⟩
      exact ⟨item, n, whole, there⟩
  rw [← found]
  constructor
  · rintro undefined ⟨item, answer⟩
    rw [undefined] at answer
    cases answer
  · intro none
    exact itemAt_undefined fun item answer => none ⟨item, answer⟩

theorem kindTest_bool (test : KindTest) (context : Context Float) (one : arguments.length = 1) :
    ∃ b, (kindTest test).call context arguments = .bool b := by
  obtain ⟨t, rfl⟩ := List.length_eq_one_iff.mp one
  exact ⟨_, rfl⟩

theorem isUnit_bool (context : Context Float) (two : arguments.length = 2) :
    ∃ b, isUnit.call context arguments = .bool b := by
  obtain ⟨t, u, rfl⟩ := List.length_eq_two.mp two
  cases u <;> exact ⟨_, rfl⟩

/-! ### All functions -/

/-- What an answer means that is neither a value nor a report. -/
inductive Meaning (context : Context Float) (name : String) (arguments : List (Token Float)) :
    Value Float → Prop where
  | token (t : Token Float) : Meaning context name arguments (.token t)
  | error (r : Report) : Meaning context name arguments (.error r)
  | unresolved : KeptAsWritten name arguments → Meaning context name arguments .unresolved
  | undefined : LacksItem context name arguments → Meaning context name arguments .undefined
  | bool (b : Bool) : IsTest name arguments → Meaning context name arguments (.bool b)

theorem Outcome.meaning {allowed : Bool} {P : Value Float → Prop} {v : Value Float}
    (ends : Outcome allowed P v)
    (answers : allowed = true → P v → Meaning context name arguments v) :
    Meaning context name arguments v := by
  cases ends with
  | answered permitted _ holds => exact answers permitted holds
  | refused _ _ => exact .error _
  | miscounted _ _ => exact .error _

theorem Answers.meaning {v : Value Float} (answers : Answers name context arguments v) :
    Meaning context name arguments v := by
  obtain ⟨t, rfl, _⟩ := answers
  exact .token t

theorem meaning_of_mem {f : Builtin Float} (member : f ∈ (standardRegistry : Registry Float).builtins) :
    Meaning context f.name arguments (f.call context arguments) := by
  cases role_of_mem member with
  | regular regular => exact (regular context arguments).meaning fun _ answers => answers.meaning
  | saturate =>
      cases first : startsWithColor arguments with
      | true => exact (outcome_saturate context first).meaning fun _ answers => answers.meaning
      | false =>
          rw [saturate_filter first]
          exact .unresolved (.inr (.inl ⟨.inl rfl, startsWithColor_eq_false_iff.mp first⟩))
  | contrast =>
      cases first : startsWithColor arguments with
      | true => exact (outcome_contrast context first).meaning fun _ answers => answers.meaning
      | false =>
          rw [contrast_filter first]
          exact .unresolved (.inr (.inl ⟨.inr rfl, startsWithColor_eq_false_iff.mp first⟩))
  | extreme extreme =>
      apply (extreme.outcome_select arguments).meaning
      rintro _ (unresolved | ⟨t, _, selected⟩)
      · have named : extreme.signature.name = "min" ∨ extreme.signature.name = "max" := by
          cases extreme
          · exact .inl rfl
          · exact .inr rfl
        rw [unresolved]
        exact .unresolved (.inr (.inr ⟨named, Extreme.select_eq_unresolved.mp unresolved⟩))
      · rw [selected]
        exact .token t
  | extract =>
      apply (outcome_extract context arguments).meaning
      rintro permitted ⟨values, index, rfl, same⟩
      have present : values ≠ [] := by
        rintro rfl
        cases permitted
      cases item : itemAt (listItems context values) index.value with
      | token t =>
          rw [same, item]
          exact .token t
      | undefined =>
          rw [same, item]
          exact .undefined ⟨rfl, values, index, present, rfl, itemAt_eq_undefined_iff.mp item⟩
      | _ =>
          unfold itemAt at item
          split at item
          · cases item
          · split at item <;> cases item
  | length => exact .token _
  | kindTest test =>
      apply (outcome_kindTest test context arguments).meaning
      rintro one ⟨b, answer⟩
      rw [answer]
      refine .bool b (.inl ⟨List.mem_map_of_mem ?_, beq_iff_eq.mp one⟩)
      cases test <;> decide
  | isUnit =>
      apply (outcome_isUnit context arguments).meaning
      rintro two ⟨b, answer⟩
      rw [answer]
      exact .bool b (.inr ⟨rfl, beq_iff_eq.mp two⟩)
  | dataUri => exact .error _

theorem meaning_of_evaluate (context : Context Float) (name : String)
    (arguments : List (Token Float)) :
    Meaning context name arguments (evaluate context name arguments) := by
  rcases evaluate_cases context name arguments with
    ⟨f, member, rfl, same⟩ | ⟨unknown, absent⟩
  · rw [same]
    exact meaning_of_mem member
  · rw [absent]
    exact .unresolved (.inl unknown)

theorem evaluate_kept (kept : KeptAsWritten name arguments) :
    evaluate context name arguments = .unresolved := by
  rcases kept with unknown | filter | ⟨named, incomparable⟩
  · rcases evaluate_cases context name arguments with
      ⟨f, member, same, _⟩ | ⟨_, absent⟩
    · have known := (Registry.reaches_standardRegistry.keyed.mem_names name).mpr ⟨f, member, same⟩
      exact absurd known unknown
    · exact absent
  · exact evaluate_filter filter
  · have selected (extreme : Extreme) :
        evaluate context extreme.signature.name arguments = .unresolved := by
      have member : extreme.builtin ∈ (standardRegistry : Registry Float).builtins :=
        mem_standardRegistry.mpr ⟨.values, by
          cases extreme <;> simp [Collection.builtins, values, extremes, Extreme.builtin,
            Extreme.signature]⟩
      refine (evaluate_of_mem member).trans ?_
      exact Extreme.select_eq_unresolved.mpr incomparable
    rcases named with rfl | rfl
    · exact selected .least
    · exact selected .greatest

theorem evaluate_lacking (lacking : LacksItem context name arguments) :
    evaluate context name arguments = .undefined := by
  obtain ⟨rfl, values, index, present, rfl, outside⟩ := lacking
  have member : extract ∈ (standardRegistry : Registry Float).builtins :=
    mem_standardRegistry.mpr ⟨.values, by simp [Collection.builtins, Library.values, lists]⟩
  refine (evaluate_of_mem member).trans ?_
  rw [extract_number present, itemAt_eq_undefined_iff]
  exact outside

theorem evaluate_test (test : IsTest name arguments) :
    ∃ b, evaluate context name arguments = .bool b := by
  rcases test with ⟨named, one⟩ | ⟨rfl, two⟩
  · obtain ⟨test, listed, rfl⟩ := List.mem_map.mp named
    have member : kindTest test ∈ (standardRegistry : Registry Float).builtins := by
      refine mem_standardRegistry.mpr ⟨.values, ?_⟩
      simp only [Collection.builtins, values, kinds, List.mem_append, List.mem_cons]
      exact .inl (.inr (.inr (.inr (List.mem_map_of_mem listed))))
    obtain ⟨b, answer⟩ := kindTest_bool test context one
    exact ⟨b, (evaluate_of_mem member).trans answer⟩
  · have member : isUnit ∈ (standardRegistry : Registry Float).builtins :=
      mem_standardRegistry.mpr ⟨.values, by simp [Collection.builtins, values, kinds]⟩
    obtain ⟨b, answer⟩ := isUnit_bool context two
    exact ⟨b, (evaluate_of_mem member).trans answer⟩

/-- A call is left as it is written, finds no such item, or answers a truth value in one case each.
Every other call answers a value or a report. -/
theorem evaluate_sentinels (context : Context Float) (name : String)
    (arguments : List (Token Float)) :
    (evaluate context name arguments = .unresolved ↔ KeptAsWritten name arguments) ∧
    (evaluate context name arguments = .undefined ↔ LacksItem context name arguments) ∧
    ((∃ b, evaluate context name arguments = .bool b) ↔ IsTest name arguments) ∧
    (¬ KeptAsWritten name arguments → ¬ LacksItem context name arguments →
      ¬ IsTest name arguments →
        (∃ t, evaluate context name arguments = .token t) ∨
          ∃ r, evaluate context name arguments = .error r) := by
  have means := meaning_of_evaluate context name arguments
  have kept (answer : evaluate context name arguments = .unresolved) :
      KeptAsWritten name arguments := by
    rw [answer] at means
    cases means
    assumption
  have lacking (answer : evaluate context name arguments = .undefined) :
      LacksItem context name arguments := by
    rw [answer] at means
    cases means
    assumption
  have tested {b : Bool} (answer : evaluate context name arguments = .bool b) :
      IsTest name arguments := by
    rw [answer] at means
    cases means
    assumption
  refine ⟨⟨kept, evaluate_kept⟩, ⟨lacking, evaluate_lacking⟩,
    ⟨fun ⟨b, answer⟩ => tested answer, evaluate_test⟩, fun called found value => ?_⟩
  cases answer : evaluate context name arguments with
  | token t => exact .inl ⟨t, rfl⟩
  | error r => exact .inr ⟨r, rfl⟩
  | unresolved => exact absurd (kept answer) called
  | undefined => exact absurd (lacking answer) found
  | bool b => exact absurd (tested answer) value

end StyleFunctions
