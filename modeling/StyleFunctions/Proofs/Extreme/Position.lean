import StyleFunctions.Proofs.Extreme.Selection

/-! The position of the selected value: the first one with an extremal key. -/

namespace StyleFunctions.Extreme

open Token (Compares)
open SortKey (NoLater)

variable {extreme : Extreme} {group : ComparisonGroup} {ts : List (Token Float)} {t : Token Float}

/-- The value at a position has a key that comes up no later than the key of any other. -/
def ExtremalAt (extreme : Extreme) (ts : List (Token Float)) (i : Nat) : Prop :=
  ∃ t, ts[i]? = some t ∧ ∀ u ∈ ts, Precedes extreme t u

/-- The leading value stands at the first of the extremal positions. -/
theorem exists_position (one : OneGroup group ts) (leads : Leads (Precedes extreme) ts t) :
    ∃ i, ts[i]? = some t ∧ ExtremalAt extreme ts i ∧ ∀ j, ExtremalAt extreme ts j → i ≤ j := by
  have total : ∀ u ∈ ts, Precedes extreme t u ∨ Precedes extreme u t := by
    intro u member
    exact precedes_total one (mem_of_leads leads) member
  rcases firstAt_of_leads total leads with ⟨i, first⟩
  refine ⟨i, first.here, ⟨t, first.here, first.extremal⟩, ?_⟩
  intro j extremal
  rcases extremal with ⟨u, there, lowest⟩
  apply Nat.le_of_not_lt
  intro earlier
  exact first.ahead j earlier u there (lowest t (List.mem_of_getElem? first.here))

/-- What a NaN leads are NaNs. -/
theorem nan_of_precedes {x : Float} {u : Token Float} (nan : x.isNaN = true)
    (compares : Compares t group (.number x)) (precedes : Precedes extreme t u) :
    ∃ y : Float, Compares u group (.number y) ∧ y.isNaN = true := by
  rcases precedes with ⟨_, k, l, first, second, noLater⟩
  rcases Token.compares_inj compares first with ⟨rfl, rfl⟩
  cases noLater with
  | nan last => exact ⟨_, second, last⟩
  | number number _ _ => rw [nan] at number; cases number

/-- Values are not all of one group when one of them is a call or two are of different groups. -/
theorem not_oneGroup_iff (present : ts ≠ []) :
    (¬ ∃ group, OneGroup group ts) ↔
      (∃ name arguments, .call name arguments ∈ ts) ∨
        ∃ t ∈ ts, ∃ u ∈ ts, ∃ g h k l, Compares t g k ∧ Compares u h l ∧ g ≠ h := by
  constructor
  · intro mixed
    by_cases called : ∃ name arguments, Token.call name arguments ∈ ts
    · exact .inl called
    · right
      have compared (t : Token Float) (member : t ∈ ts) : ∃ g k, Compares t g k := by
        rw [Token.exists_compares_iff]
        intro name arguments same
        exact called ⟨name, arguments, same ▸ member⟩
      rcases List.exists_mem_of_ne_nil ts present with ⟨t, member⟩
      rcases compared t member with ⟨g, k, first⟩
      apply Classical.byContradiction
      intro alike
      apply mixed
      refine ⟨g, ?_⟩
      intro u other
      rcases compared u other with ⟨h, l, second⟩
      have same : g = h := by
        apply Classical.byContradiction
        intro differ
        exact alike ⟨t, member, u, other, g, h, k, l, first, second, differ⟩
      rw [same]
      exact ⟨l, second⟩
  · intro either one
    rcases one with ⟨group, one⟩
    rcases either with ⟨name, arguments, member⟩ | ⟨t, left, u, right, g, h, k, l, first, second, differ⟩
    · rcases one _ member with ⟨_, compares⟩
      cases compares
    · rcases one t left with ⟨_, again⟩
      rcases one u right with ⟨_, other⟩
      apply differ
      rw [(Token.compares_inj first again).1, (Token.compares_inj second other).1]

/-- Several values leave the call as it is written exactly when one of them is a call or two belong to
different groups. Otherwise the value at the first extremal position is selected, as it was given. It
is a NaN only where all values are. -/
theorem select_first_extremal (extreme : Extreme) {ts : List (Token Float)}
    (several : 2 ≤ ts.length) :
    (extreme.select ts = .unresolved ↔
      (∃ name arguments, .call name arguments ∈ ts) ∨
        ∃ t ∈ ts, ∃ u ∈ ts, ∃ g h k l, Compares t g k ∧ Compares u h l ∧ g ≠ h) ∧
    (extreme.select ts ≠ .unresolved →
      ∃ i t, extreme.select ts = .token t ∧ ts[i]? = some t ∧ ExtremalAt extreme ts i ∧
        (∀ j, ExtremalAt extreme ts j → i ≤ j) ∧
        ∀ g x, Compares t g (.number x) → x.isNaN = true →
          ∀ u ∈ ts, ∃ y : Float, Compares u g (.number y) ∧ y.isNaN = true) := by
  have present : ts ≠ [] := List.ne_nil_of_length_pos (by omega)
  constructor
  · rw [select_eq_unresolved_iff several, not_oneGroup_iff present]
  · intro resolved
    have one : ∃ group, OneGroup group ts := by
      apply Classical.byContradiction
      intro mixed
      exact resolved ((select_eq_unresolved_iff several).mpr mixed)
    rcases one with ⟨group, one⟩
    rcases exists_select extreme present one with ⟨t, selected, leads⟩
    rcases exists_position one leads with ⟨i, here, extremal, least⟩
    refine ⟨i, t, selected, here, extremal, least, ?_⟩
    intro g x compares nan u member
    exact nan_of_precedes nan compares (precedes_of_leads one leads u member)

/-- Of two equal texts the first is selected, whatever their quotes. -/
theorem select_first_extremal_texts :
    let ts : List (Token Float) := [.keyword "b", .keyword "a", .string ⟨"a", some '"'⟩]
    2 ≤ ts.length ∧ Extreme.least.select ts ≠ .unresolved ∧
      Extreme.least.select ts = .token (.keyword "a") ∧ ExtremalAt .least ts 1 ∧
      ∀ j, ExtremalAt .least ts j → 1 ≤ j := by
  intro ts
  have several : 2 ≤ ts.length := by decide
  have one : OneGroup .string ts := by
    intro t member
    simp only [ts, List.mem_cons, List.not_mem_nil, or_false] at member
    rcases member with rfl | rfl | rfl <;> exact ⟨_, .string _⟩
  have order {s t : Text} :
      Precedes .least (.string s) (.string t) ↔ s.content ≤ t.content :=
    (precedes_iff (.string s) (.string t)).trans SortKey.noLater_text_iff
  have leads : Leads (Precedes .least) ts (.keyword "a") := by
    refine ⟨[.keyword "b"], [.string ⟨"a", some '"'⟩], rfl, ?_, ?_⟩
    · intro t member
      rw [List.mem_singleton.mp member, Token.keyword, Token.keyword, order]
      decide
    · intro t member
      rw [List.mem_singleton.mp member, Token.keyword, order]
      decide
  have selected : Extreme.least.select ts = .token (.keyword "a") :=
    (select_eq_token_iff (List.cons_ne_nil _ _) one).mpr leads
  have resolved : Extreme.least.select ts ≠ .unresolved := by
    rw [selected]
    intro impossible
    cases impossible
  rcases (select_first_extremal .least several).2 resolved with
    ⟨i, t, answer, here, extremal, least, _⟩
  rw [selected] at answer
  cases answer
  have position : i = 1 := by
    match i, here with
    | 0, here => exact absurd here (by simp [ts, Token.keyword, Text.keyword])
    | 1, _ => rfl
    | 2, here => exact absurd here (by simp [ts, Token.keyword, Text.keyword])
    | i + 3, here => cases here
  rw [position] at extremal least
  exact ⟨several, resolved, selected, extremal, least⟩

end StyleFunctions.Extreme
