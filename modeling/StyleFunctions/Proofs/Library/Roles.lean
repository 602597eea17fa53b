import StyleFunctions.Proofs.Library.Colors
import StyleFunctions.Proofs.Library.Values
import StyleFunctions.Proofs.Reading
import StyleFunctions.Proofs.Registry.Run

/-!
The standard functions, sorted by what they can answer. All but a few are regular, so that a statement
about every function needs one case for these and one for each of the others.
-/

namespace StyleFunctions

variable {α : Type}

/-! ### The extremes -/

namespace Extreme

section

variable [Elementary α]

theorem token_mem_of_candidates {ts : List (Token α)} {cs : List (Candidate α)} {c : Candidate α}
    (candidates : ts.mapM candidate? = some cs) (member : c ∈ cs) : c.token ∈ ts := by
  obtain ⟨t, given, known⟩ := exists_of_mapM candidates member
  obtain ⟨_, _, rfl⟩ := Option.map_eq_some_iff.mp known
  exact given

/-- A selection answers one of the values, unless there are none or they cannot be compared. -/
theorem outcome_select (extreme : Extreme) (ts : List (Token α)) :
    Outcome ((Arity.atLeast 1).allows ts.length) (fun v => v = .unresolved ∨ ∃ t ∈ ts, v = .token t)
      (extreme.select ts) := by
  match ts with
  | [] => exact .miscounted rfl rfl
  | [t] => exact .answered rfl rfl (.inr ⟨t, List.mem_singleton_self t, rfl⟩)
  | t :: u :: ts =>
      have several : (Arity.atLeast 1).allows (t :: u :: ts).length = true := by
        simp [Arity.allows]
      simp only [select]
      split
      · exact .answered several rfl (.inl rfl)
      · rename_i cs candidates
        split
        · exact .answered several rfl (.inl rfl)
        · split
          · rename_i c first
            have ranked : c ∈ cs := List.mem_mergeSort.mp (List.mem_of_mem_head? first)
            have given := token_mem_of_candidates candidates ranked
            exact .answered several rfl (.inr ⟨c.token, given, rfl⟩)
          · exact .answered several rfl (.inl rfl)

end

def signature : Extreme → Signature
  | .least => Library.minSignature
  | .greatest => Library.maxSignature

/-- The function that selects an extreme. -/
def builtin [Elementary α] (extreme : Extreme) : Builtin α :=
  ⟨extreme.signature, fun _ arguments => extreme.select arguments⟩

end Extreme

/-! ### All functions -/

variable [Elementary α] [Numeral α] {f : Builtin α}

/-- What a standard function is: a regular one or one of a few others. -/
inductive Role : Builtin α → Prop where
  | regular {f : Builtin α} : Regular f → Role f
  | saturate : Role (Library.adjust .saturate)
  | contrast : Role Library.contrast
  | extreme (extreme : Extreme) : Role extreme.builtin
  | extract : Role Library.extract
  | length : Role Library.length
  | kindTest (test : KindTest) : Role (Library.kindTest test)
  | isUnit : Role Library.isUnit
  | dataUri : Role Library.dataUri

open Library

omit [Numeral α] in
theorem role_of_units (member : f ∈ Library.units) : Role f := by
  rcases List.mem_cons.mp member with rfl | member
  · exact .regular regular_unit
  · rcases List.mem_cons.mp member with rfl | member
    · exact .regular regular_convert
    · obtain ⟨function, _, rfl⟩ := List.mem_map.mp member
      exact .regular (regular_math function)

omit [Numeral α] in
theorem role_of_colors (member : f ∈ Library.colors) : Role f := by
  simp only [colors, List.mem_append, List.mem_map, List.mem_cons, List.not_mem_nil,
    or_false] at member
  rcases member with
    (((⟨maker, _, rfl⟩ | ⟨adjustment, _, rfl⟩) | single) | ⟨c, _, rfl⟩) | ⟨mode, _, rfl⟩
  · exact .regular (regular_maker maker)
  · by_cases filter : adjustment = .saturate
    · rw [filter]
      exact .saturate
    · exact .regular (regular_adjust filter)
  · rcases single with rfl | rfl | rfl | rfl | rfl | rfl | rfl
    · exact .regular regular_greyscale
    · exact .regular regular_mix
    · exact .regular (regular_mixWith rfl (.inl rfl))
    · exact .regular (regular_mixWith rfl (.inr rfl))
    · exact .contrast
    · exact .regular regular_luma
    · exact .regular regular_argb
  · exact .regular (regular_channel c)
  · exact .regular (regular_blend mode)

theorem role_of_values (member : f ∈ Library.values) : Role f := by
  simp only [values, numbers, extremes, texts, lists, kinds, List.mem_append, List.mem_cons,
    List.not_mem_nil, or_false, List.mem_map] at member
  rcases member with ((((number | selection) | text) | list) | kind) | rfl
  · rcases number with rfl | rfl | rfl | rfl | rfl
    · exact .regular regular_round
    · exact .regular regular_pi
    · exact .regular regular_mod
    · exact .regular regular_pow
    · exact .regular regular_percentage
  · rcases selection with rfl | rfl
    · exact .extreme .least
    · exact .extreme .greatest
  · rcases text with rfl | rfl | rfl
    · exact .regular (regular_format _ _)
    · exact .regular (regular_escape _)
    · exact .regular regular_unquote
  · rcases list with rfl | rfl
    · exact .extract
    · exact .length
  · rcases kind with rfl | rfl | ⟨test, _, rfl⟩
    · exact .regular regular_color
    · exact .isUnit
    · exact .kindTest test
  · exact .dataUri

theorem mem_standardRegistry :
    f ∈ (standardRegistry : Registry α).builtins ↔ ∃ c : Collection, f ∈ c.builtins := by
  have all : ∀ c : Collection, c ∈ [Collection.units, .colors, .values] := by
    intro c
    cases c <;> simp
  have loaded : Latest (Registry.registered ([] ++ [Collection.units, .colors, .values].map
      Registry.Step.load)) f ↔ _ := Registry.latest_loads
  rw [Registry.reaches_standardRegistry.mem_builtins]
  refine loaded.trans ?_
  constructor
  · rintro (⟨c, _, member⟩ | ⟨latest, _⟩)
    · exact ⟨c, member⟩
    · cases mem_of_latest latest
  · rintro ⟨c, member⟩
    exact .inl ⟨c, all c, member⟩

theorem role_of_mem (member : f ∈ (standardRegistry : Registry α).builtins) : Role f := by
  obtain ⟨c, member⟩ := mem_standardRegistry.mp member
  cases c with
  | units => exact role_of_units member
  | colors => exact role_of_colors member
  | values => exact role_of_values member

variable {context : Context α} {arguments : List (Token α)} {t : Token α}

theorem evaluate_of_mem (member : f ∈ (standardRegistry : Registry α).builtins) :
    evaluate context f.name arguments = f.call context arguments :=
  Registry.reaches_standardRegistry.keyed.call_of_mem member context arguments

/-- A name is that of a standard function, or its calls are left as they are written. -/
theorem evaluate_cases (context : Context α) (name : String) (arguments : List (Token α)) :
    (∃ f ∈ (standardRegistry : Registry α).builtins, f.name = name ∧
      evaluate context name arguments = f.call context arguments) ∨
    name ∉ (standardRegistry : Registry α).names ∧ evaluate context name arguments = .unresolved := by
  by_cases known : ∃ f ∈ (standardRegistry : Registry α).builtins, f.name = name
  · obtain ⟨f, member, rfl⟩ := known
    exact .inl ⟨f, member, rfl, evaluate_of_mem member⟩
  · have absent : name ∉ (standardRegistry : Registry α).names := by
      rwa [Registry.reaches_standardRegistry.keyed.mem_names]
    exact .inr ⟨absent, Registry.call_of_absent _ absent context arguments⟩

/-- A call that may be a filter of the style sheet: it has the name of one and does not begin with a
color. -/
def IsFilter {α : Type} (name : String) (arguments : List (Token α)) : Prop :=
  (name = "saturate" ∨ name = "contrast") ∧ ∀ c, arguments.head? ≠ some (.color c)

omit [Elementary α] [Numeral α] in
theorem startsWithColor_eq_false_iff [Scalar α] :
    startsWithColor arguments = false ↔ ∀ c, arguments.head? ≠ some (.color c) := by
  unfold startsWithColor
  match arguments with
  | [] => simp
  | t :: rest => cases t <;> simp [Token.color?]

theorem saturate_mem : adjust .saturate ∈ (standardRegistry : Registry α).builtins :=
  mem_standardRegistry.mpr ⟨.colors, by simp [Collection.builtins, colors, Adjustment.all]⟩

theorem contrast_mem : contrast ∈ (standardRegistry : Registry α).builtins :=
  mem_standardRegistry.mpr ⟨.colors, by simp [Collection.builtins, colors]⟩

/-- A filter of the style sheet is left as it is written. -/
theorem evaluate_filter {name : String} (filter : IsFilter name arguments) :
    evaluate context name arguments = .unresolved := by
  obtain ⟨named, other⟩ := filter
  have first := startsWithColor_eq_false_iff.mpr other
  rcases named with rfl | rfl
  · exact (evaluate_of_mem saturate_mem).trans (saturate_filter first)
  · exact (evaluate_of_mem contrast_mem).trans (contrast_filter first)

/-! ### Where tokens come from -/

omit [Numeral α] in
theorem yields_of_outcome {allowed : Bool} {name : String}
    (ends : Outcome allowed (Answers name context arguments) (.token t)) :
    Yields name context arguments t := by
  obtain ⟨u, same, yields⟩ := ends.holds rfl
  cases same
  exact yields

omit [Numeral α] in
theorem yields_of_listItems {name : String} {values : List (Token α)}
    (inside : ∀ u ∈ values, u ∈ arguments) (item : t ∈ listItems context values) :
    Yields name context arguments t := by
  unfold listItems at item
  split at item
  · obtain ⟨text, _, rfl⟩ := List.mem_map.mp item
    apply Yields.plain
    unfold itemToken
    split <;> rfl
  · exact .argument (inside t item)

omit [Numeral α] [Elementary α] in
theorem mem_of_itemAt [Scalar α] {items : List (Token α)} {index : α}
    (answer : itemAt items index = .token t) : t ∈ items := by
  unfold itemAt at answer
  split at answer
  · cases answer
  · split at answer
    · rename_i item there
      cases answer
      exact List.mem_of_getElem? there
    · cases answer

/-- Every token that a standard function answers is of known origin. -/
theorem yields_of_call (member : f ∈ (standardRegistry : Registry α).builtins)
    (answer : f.call context arguments = .token t) : Yields f.name context arguments t := by
  cases role_of_mem member with
  | regular regular =>
      have ends := regular context arguments
      rw [answer] at ends
      exact yields_of_outcome ends
  | saturate =>
      by_cases first : startsWithColor arguments = true
      · have ends := outcome_saturate context first
        rw [answer] at ends
        exact yields_of_outcome ends
      · rw [saturate_filter (Bool.eq_false_iff.mpr first)] at answer
        cases answer
  | contrast =>
      by_cases first : startsWithColor arguments = true
      · have ends := outcome_contrast context first
        rw [answer] at ends
        exact yields_of_outcome ends
      · rw [contrast_filter (Bool.eq_false_iff.mpr first)] at answer
        cases answer
  | extreme extreme =>
      have ends := extreme.outcome_select arguments
      rw [show extreme.select arguments = .token t from answer] at ends
      rcases ends.holds rfl with unresolved | ⟨u, given, same⟩
      · cases unresolved
      · cases same
        exact .argument given
  | extract =>
      have ends := outcome_extract context arguments
      rw [answer] at ends
      obtain ⟨values, index, rfl, item⟩ := ends.holds rfl
      apply yields_of_listItems _ (mem_of_itemAt item.symm)
      intro u given
      exact List.mem_append_left _ given
  | length =>
      cases answer
      exact .plain rfl
  | kindTest test =>
      have ends := outcome_kindTest test context arguments
      rw [answer] at ends
      obtain ⟨b, same⟩ := ends.holds rfl
      cases same
  | isUnit =>
      have ends := outcome_isUnit context arguments
      rw [answer] at ends
      obtain ⟨b, same⟩ := ends.holds rfl
      cases same
  | dataUri => cases answer

theorem yields_of_evaluate {name : String} (answer : evaluate context name arguments = .token t) :
    Yields name context arguments t := by
  rcases evaluate_cases context name arguments with
    ⟨f, member, rfl, same⟩ | ⟨_, unresolved⟩
  · exact yields_of_call member (same.symm.trans answer)
  · rw [unresolved] at answer
    cases answer

end StyleFunctions
