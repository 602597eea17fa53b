import StyleFunctions.Proofs.Extreme.Selection
import StyleFunctions.Proofs.Quantity.Normalized

/-!
The extreme one of several numbers of one unit. They are compared in the standard unit of what the
unit measures, where two of them can be equal that are not equal as they are given.
-/

namespace StyleFunctions.Extreme

open Token (Compares)
open Binary64 (rank)

section

variable {β : Type} {before : β → β → Prop} {xs : List β} {x y : β} {i j : Nat}

theorem leads_of_map {γ : Type} {earlier : γ → γ → Prop} {f : β → γ} {z : γ}
    (same : ∀ a ∈ xs, ∀ b ∈ xs, earlier (f a) (f b) ↔ before a b)
    (leads : Leads earlier (xs.map f) z) : ∃ x, z = f x ∧ Leads before xs x := by
  rcases leads with ⟨front, back, split, later, rest⟩
  rcases List.map_eq_append_iff.mp split with ⟨front, others, rfl, rfl, cut⟩
  rcases List.map_eq_cons_iff.mp cut with ⟨x, back, rfl, rfl, rfl⟩
  refine ⟨x, rfl, front, back, rfl, ?_, ?_⟩
  · intro y member
    rw [← same y (by simp [member]) x (by simp)]
    exact later (f y) (List.mem_map_of_mem member)
  · intro y member
    rw [← same x (by simp) y (by simp [member])]
    exact rest (f y) (List.mem_map_of_mem member)

/-- Values in the order of their keys, from the end that is asked for. -/
def Before (extreme : Extreme) (key : β → Int) (x y : β) : Prop := extreme.Reaches (key x) (key y)

variable {extreme : Extreme} {key raw : β → Int}

theorem before_total (x y : β) : Before extreme key x y ∨ Before extreme key y x := by
  cases extreme <;> exact Int.le_total ..

theorem exists_leads (present : xs ≠ []) : ∃ x, Leads (Before extreme key) xs x := by
  induction xs with
  | nil => exact absurd rfl present
  | cons x xs ih =>
      by_cases last : xs = []
      · subst last
        exact ⟨x, leads_singleton x⟩
      · rcases ih last with ⟨y, leads⟩
        have lowest := before_of_leads (fun z _ => before_total y z) leads
        by_cases kept : Before extreme key x y
        · refine ⟨x, leads_append_left (leads_singleton x) ?_⟩
          intro z member
          exact SortKey.reaches_trans_int kept (lowest z member)
        · have later : ∀ z ∈ [x], ¬ Before extreme key z y := by simpa using kept
          exact ⟨y, leads_append_right leads later⟩

theorem exists_firstAt (extreme : Extreme) (key : β → Int) (present : xs ≠ []) :
    ∃ i x, FirstAt (Before extreme key) xs i x := by
  rcases exists_leads present with ⟨x, leads⟩
  rcases firstAt_of_leads (fun y _ => before_total x y) leads with ⟨i, first⟩
  exact ⟨i, x, first⟩

/-- The first extremal values under two keys, of which one keeps the order of the other but may
merge values: they are merged, and at one position exactly where none ahead is merged with them. -/
theorem firstAt_merged (mono : ∀ a ∈ xs, ∀ b ∈ xs, raw a ≤ raw b → key a ≤ key b)
    (merged : FirstAt (Before extreme key) xs i x) (given : FirstAt (Before extreme raw) xs j y) :
    key x = key y ∧ i ≤ j ∧ (i = j ↔ ∀ k < j, ∀ z, xs[k]? = some z → key z ≠ key y) := by
  have left := List.mem_of_getElem? merged.here
  have right := List.mem_of_getElem? given.here
  have forth : Before extreme key x y := merged.extremal y right
  have back : Before extreme key y x := by
    have reaches := given.extremal x left
    cases extreme with
    | least => exact mono y right x left reaches
    | greatest => exact mono x left y right reaches
  have same : key x = key y := by
    cases extreme with
    | least => exact Int.le_antisymm forth back
    | greatest => exact Int.le_antisymm back forth
  have order : i ≤ j := by
    apply Nat.le_of_not_lt
    intro earlier
    exact merged.ahead j earlier y given.here back
  refine ⟨same, order, ?_, ?_⟩
  · intro position k earlier z there equal
    apply merged.ahead k (position ▸ earlier) z there
    rw [Before, equal, ← same]
    cases extreme <;> exact Int.le_refl _
  · intro apart
    apply Nat.le_antisymm order
    apply Nat.le_of_not_lt
    intro earlier
    exact apart i earlier x merged.here same

end

section

variable {extreme : Extreme} {unit : String} {x y : Float}

theorem exists_compares_number (unit : String) :
    ∃ group, ∀ x : Float, Compares (.number ⟨x, unit⟩) group (.number (normalized unit x)) := by
  cases found : Measure.ofSymbol? unit with
  | none =>
      refine ⟨.number, ?_⟩
      intro x
      rw [normalized_plain found]
      exact .plain (Measure.ofSymbol?_eq_none_iff.mp found)
  | some m =>
      refine ⟨.quantity m.quantity, ?_⟩
      intro x
      rw [normalized_measured found]
      exact .measured m (Measure.symbol_of_ofSymbol? found)

/-- Numbers of one unit compare as their normalized values in the total order of doubles. -/
theorem precedes_number_iff (left : x.isFinite = true) (right : y.isFinite = true) :
    Precedes extreme (.number ⟨x, unit⟩) (.number ⟨y, unit⟩) ↔
      Before extreme (fun z => rank (normalized unit z)) x y := by
  rcases exists_compares_number unit with ⟨group, compares⟩
  rw [precedes_iff (compares x) (compares y), SortKey.noLater_number_iff,
    isNaN_normalized left, isNaN_normalized right]
  simp [Before]

theorem select_normalized (extreme : Extreme) (unit : String) {values : List Float}
    (present : values ≠ []) (finite : ∀ x ∈ values, x.isFinite = true) :
    ∃ i x, FirstAt (Before extreme fun z => rank (normalized unit z)) values i x ∧
      extreme.select (values.map fun z => .number ⟨z, unit⟩) = .token (.number ⟨x, unit⟩) := by
  rcases exists_compares_number unit with ⟨group, compares⟩
  have one : OneGroup group (values.map fun z => Token.number ⟨z, unit⟩) := by
    intro t member
    rcases List.mem_map.mp member with ⟨x, _, rfl⟩
    exact ⟨_, compares x⟩
  rcases exists_select extreme (mt List.map_eq_nil_iff.mp present) one with ⟨t, selected, leads⟩
  have alike : ∀ a ∈ values, ∀ b ∈ values,
      Precedes extreme (.number ⟨a, unit⟩) (.number ⟨b, unit⟩) ↔
        Before extreme (fun z => rank (normalized unit z)) a b := by
    intro a left b right
    exact precedes_number_iff (finite a left) (finite b right)
  rcases leads_of_map alike leads with ⟨x, rfl, chosen⟩
  rcases firstAt_of_leads (fun y _ => before_total x y) chosen with ⟨i, first⟩
  exact ⟨i, x, first, selected⟩

/-- Of several finite numbers of one unit the first with an extremal normalized value is selected.
It is the first extremal one as they are given, unless one ahead of that is merged with it; in
meters, in seconds and in units that measure nothing known this does not happen. -/
theorem select_like_units (extreme : Extreme) (unit : String) {values : List Float}
    (several : 2 ≤ values.length) (finite : ∀ x ∈ values, x.isFinite = true) :
    ∃ i x j y, FirstAt (Before extreme fun z => rank (normalized unit z)) values i x ∧
      FirstAt (Before extreme rank) values j y ∧
      extreme.select (values.map fun z => .number ⟨z, unit⟩) = .token (.number ⟨x, unit⟩) ∧
      rank (normalized unit x) = rank (normalized unit y) ∧ i ≤ j ∧
      (i = j ↔ ∀ k < j, ∀ z, values[k]? = some z →
        rank (normalized unit z) ≠ rank (normalized unit y)) ∧
      ((∀ m : Measure, unit = m.symbol → m = .meter ∨ m = .second) → i = j) := by
  have present : values ≠ [] := List.ne_nil_of_length_pos (by omega)
  rcases select_normalized extreme unit present finite with ⟨i, x, first, selected⟩
  rcases exists_firstAt extreme rank present with ⟨j, y, given⟩
  have mono : ∀ a ∈ values, ∀ b ∈ values, rank a ≤ rank b →
      rank (normalized unit a) ≤ rank (normalized unit b) := by
    intro a left b right le
    exact rank_normalized_mono (finite a left) (finite b right) le
  rcases firstAt_merged mono first given with ⟨same, order, apart⟩
  refine ⟨i, x, j, y, first, given, selected, same, order, apart, ?_⟩
  intro standard
  apply apart.mpr
  intro k earlier z there equal
  rw [normalized_self standard (finite z (List.mem_of_getElem? there)),
    normalized_self standard (finite y (List.mem_of_getElem? given.here))] at equal
  apply given.ahead k earlier z there
  rw [Before, equal]
  cases extreme <;> exact Int.le_refl _

/-- One inch is the smallest of three, one and two. -/
theorem select_like_units_inches :
    2 ≤ [(3 : Float), 1, 2].length ∧ (∀ x ∈ [(3 : Float), 1, 2], x.isFinite = true) ∧
      Extreme.least.select [.number ⟨3, "in"⟩, .number ⟨1, "in"⟩, .number ⟨2, "in"⟩] =
        .token (.number (⟨1, "in"⟩ : Dimension Float)) := by
  have several : 2 ≤ [(3 : Float), 1, 2].length := by decide
  have finite : ∀ x ∈ [(3 : Float), 1, 2], x.isFinite = true := by decide +kernel
  refine ⟨several, finite, ?_⟩
  rcases select_like_units .least "in" several finite with ⟨i, x, _, _, first, _, selected, _⟩
  have lowest : rank (normalized "in" x) ≤ rank (normalized "in" 1) :=
    first.extremal 1 (List.mem_cons_of_mem _ (List.mem_cons_self ..))
  have member : x = 3 ∨ x = 1 ∨ x = 2 := by
    simpa using List.mem_of_getElem? first.here
  rcases member with three | one | two
  · rw [three] at lowest
    exact absurd lowest (by decide +kernel)
  · rw [one] at selected
    exact selected
  · rw [two] at lowest
    exact absurd lowest (by decide +kernel)

/-- Seven centimeters and the double next above seven are the same number of meters, so that the
first of the two is selected, whichever it is. -/
theorem select_merges_neighbors :
    ¬ ∀ (unit : String) (values : List Float), 2 ≤ values.length →
      (∀ x ∈ values, x.isFinite = true) →
        ∃ j y, FirstAt (Before .least rank) values j y ∧
          Extreme.least.select (values.map fun z => .number ⟨z, unit⟩) =
            .token (.number ⟨y, unit⟩) := by
  intro raw
  have several : 2 ≤ [(7.000000000000001 : Float), 7].length := by decide
  have finite : ∀ x ∈ [(7.000000000000001 : Float), 7], x.isFinite = true := by decide +kernel
  rcases raw "cm" _ several finite with ⟨j, y, given, answer⟩
  rcases select_normalized .least "cm" (by simp) finite with ⟨i, x, first, selected⟩
  have member : x = 7.000000000000001 ∨ x = 7 := by
    simpa using List.mem_of_getElem? first.here
  have chosen : x = 7.000000000000001 := by
    apply first.head
    have le : rank (normalized "cm" 7.000000000000001) ≤ rank (normalized "cm" x) := by
      rcases member with above | seven
      · exact Int.le_of_eq (by rw [above])
      · rw [seven]
        decide +kernel
    exact le
  rw [selected, chosen] at answer
  have same : 7.000000000000001 = y := by
    injection answer with token
    injection token with dimension
    injection dimension
  have least : rank y ≤ rank 7 := given.extremal 7 (by simp)
  rw [← same] at least
  exact absurd least (by decide +kernel)

end

end StyleFunctions.Extreme
