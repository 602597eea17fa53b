import StyleFunctions.Proofs.Extreme.Group

/-!
Which of several values is selected. `Leads` says it of a list as a whole: what leads a list is what
a stable sort puts first, and the laws for lists that are put together carry it to the theorems about
groups of values.
-/

namespace StyleFunctions.Extreme

open Token (Compares)
open SortKey (NoLater)

section

variable {β : Type} {before : β → β → Prop} {xs ys : List β} {x y : β}

/-- The first of several values that none of the others comes up before. -/
def Leads (before : β → β → Prop) (xs : List β) (x : β) : Prop :=
  ∃ front back, xs = front ++ x :: back ∧ (∀ y ∈ front, ¬ before y x) ∧ ∀ y ∈ back, before x y

theorem leads_singleton (x : β) : Leads before [x] x :=
  ⟨[], [], rfl, by simp, by simp⟩

theorem mem_of_leads (leads : Leads before xs x) : x ∈ xs := by
  rcases leads with ⟨front, back, rfl, _, _⟩
  simp

theorem leads_append_left (leads : Leads before xs x) (after : ∀ y ∈ ys, before x y) :
    Leads before (xs ++ ys) x := by
  rcases leads with ⟨front, back, rfl, later, rest⟩
  refine ⟨front, back ++ ys, by simp, later, ?_⟩
  intro y member
  rcases List.mem_append.mp member with member | member
  · exact rest y member
  · exact after y member

theorem leads_append_right (leads : Leads before ys y) (later : ∀ x ∈ xs, ¬ before x y) :
    Leads before (xs ++ ys) y := by
  rcases leads with ⟨front, back, rfl, ahead, rest⟩
  refine ⟨xs ++ front, back, by simp, ?_, rest⟩
  intro x member
  rcases List.mem_append.mp member with member | member
  · exact later x member
  · exact ahead x member

/-- Where any two values can be ordered, the leading one comes up no later than all of them. -/
theorem before_of_leads (total : ∀ y ∈ xs, before x y ∨ before y x) (leads : Leads before xs x) :
    ∀ y ∈ xs, before x y := by
  have itself : before x x := by simpa using total x (mem_of_leads leads)
  rcases leads with ⟨front, back, rfl, later, rest⟩
  intro y member
  rcases List.mem_append.mp member with ahead | member
  · exact (total y (List.mem_append_left _ ahead)).resolve_right (later y ahead)
  · rcases List.mem_cons.mp member with rfl | member
    · exact itself
    · exact rest y member

/-- A value at a position that comes up no later than any other, while none ahead of it does. -/
structure FirstAt (before : β → β → Prop) (xs : List β) (i : Nat) (x : β) : Prop where
  here : xs[i]? = some x
  extremal : ∀ y ∈ xs, before x y
  ahead : ∀ j < i, ∀ y, xs[j]? = some y → ¬ before y x

theorem firstAt_of_leads (total : ∀ y ∈ xs, before x y ∨ before y x) (leads : Leads before xs x) :
    ∃ i, FirstAt before xs i x := by
  have extremal := before_of_leads total leads
  rcases leads with ⟨front, back, rfl, later, _⟩
  refine ⟨front.length, by simp, extremal, ?_⟩
  intro j inside y there
  rw [List.getElem?_append_left inside] at there
  exact later y (List.mem_of_getElem? there)

/-- The head of a list is that value when it comes up no later than it. -/
theorem FirstAt.head {i : Nat} (first : FirstAt before (y :: xs) i x) (early : before y x) :
    x = y := by
  cases i with
  | zero => exact (Option.some.inj first.here).symm
  | succ i => exact absurd early (first.ahead 0 (Nat.succ_pos i) y rfl)

theorem leads_unique (first : Leads before xs x) (second : Leads before xs y) : x = y := by
  rcases first with ⟨front, back, split, later, rest⟩
  rcases second with ⟨otherFront, otherBack, otherSplit, otherLater, otherRest⟩
  rw [split] at otherSplit
  rcases List.append_eq_append_iff.mp otherSplit with ⟨gap, front_eq, cut⟩ | ⟨gap, front_eq, cut⟩
  · cases gap with
    | nil => exact (List.cons.inj cut).1
    | cons z gap =>
        rcases List.cons.inj cut with ⟨rfl, rfl⟩
        have ahead : before x y := rest y (by simp)
        exact absurd ahead (otherLater x (by simp [front_eq]))
  · cases gap with
    | nil => exact (List.cons.inj cut).1.symm
    | cons z gap =>
        rcases List.cons.inj cut with ⟨rfl, rfl⟩
        have ahead : before y x := otherRest x (by simp)
        exact absurd ahead (later y (by simp [front_eq]))

/-- A stable sort puts the leading value first. -/
theorem leads_mergeSort (le : β → β → Bool) (trans : ∀ x y z, le x y → le y z → le x z)
    (total : ∀ x y, le x y || le y x) (present : xs ≠ []) :
    ∃ x, (xs.mergeSort le).head? = some x ∧ Leads (fun x y => le x y = true) xs x := by
  induction xs with
  | nil => exact absurd rfl present
  | cons x xs ih =>
      obtain ⟨front, back, sorted, rest, later⟩ := List.mergeSort_cons trans total x xs
      cases front with
      | nil =>
          refine ⟨x, by rw [sorted]; rfl, [], xs, rfl, by simp, ?_⟩
          intro y member
          have order := List.pairwise_mergeSort trans total (x :: xs)
          rw [sorted] at order
          have inside : y ∈ back := by
            rw [List.nil_append] at rest
            rw [← rest]
            exact List.mem_mergeSort.mpr member
          exact List.rel_of_pairwise_cons order inside
      | cons y front =>
          have nonempty : xs ≠ [] := by
            rintro rfl
            simp at rest
          obtain ⟨z, first, leads⟩ := ih nonempty
          rw [rest, List.cons_append, List.head?_cons, Option.some.injEq] at first
          subst first
          have apart : ∀ w ∈ [x], ¬ le w y = true := by
            simpa using later y (List.mem_cons_self ..)
          exact ⟨y, by rw [sorted]; rfl, leads_append_right leads apart⟩

theorem leads_map {γ : Type} {earlier : γ → γ → Prop} {f : β → γ}
    (leads : Leads (fun a b => earlier (f a) (f b)) xs x) : Leads earlier (xs.map f) (f x) := by
  rcases leads with ⟨front, back, rfl, later, rest⟩
  refine ⟨front.map f, back.map f, by simp, ?_, ?_⟩
  · simpa only [List.forall_mem_map] using later
  · simpa only [List.forall_mem_map] using rest

/-- Values may be sorted by something else, as long as it orders them alike. -/
theorem leads_mergeSort_map {γ : Type} (le : γ → γ → Bool) (f : β → γ) (before : β → β → Prop)
    (alike : ∀ x y, le (f x) (f y) = true ↔ before x y)
    (trans : ∀ x y z, before x y → before y z → before x z)
    (total : ∀ x y, before x y ∨ before y x) (present : xs ≠ []) :
    ∃ x, ((xs.map f).mergeSort le).head? = some (f x) ∧ Leads before xs x := by
  obtain ⟨x, first, leads⟩ := leads_mergeSort (fun x y => le (f x) (f y))
    (fun x y z => by simpa only [alike] using trans x y z)
    (fun x y => by simpa only [Bool.or_eq_true, alike] using total x y) present
  have sorted : (xs.map f).mergeSort le = (xs.mergeSort fun x y => le (f x) (f y)).map f :=
    (List.map_mergeSort (f := f) (r := fun x y => le (f x) (f y)) fun _ _ _ _ => rfl).symm
  refine ⟨x, ?_, ?_⟩
  · rw [sorted, List.head?_map, first, Option.map_some]
  · simpa only [alike] using leads

end

/-- Values that can all be compared with each other. -/
def OneGroup (group : ComparisonGroup) (ts : List (Token Float)) : Prop :=
  ∀ t ∈ ts, ∃ key, Compares t group key

/-- The key of the first value comes up no later than that of the second. -/
def Precedes (extreme : Extreme) (t u : Token Float) : Prop :=
  ∃ group k l, Compares t group k ∧ Compares u group l ∧ NoLater extreme k l

variable {extreme : Extreme} {group : ComparisonGroup} {t u v : Token Float}
  {ts us : List (Token Float)} {k l : SortKey Float}

theorem precedes_iff (first : Compares t group k) (second : Compares u group l) :
    Precedes extreme t u ↔ NoLater extreme k l := by
  constructor
  · intro precedes
    rcases precedes with ⟨_, _, _, left, right, noLater⟩
    rw [(Token.compares_inj first left).2, (Token.compares_inj second right).2]
    exact noLater
  · intro noLater
    exact ⟨group, k, l, first, second, noLater⟩

theorem precedes_trans (first : Precedes extreme t u) (second : Precedes extreme u v) :
    Precedes extreme t v := by
  rcases first with ⟨group, k, l, left, middle, before⟩
  rcases second with ⟨_, _, m, again, right, later⟩
  rcases Token.compares_inj middle again with ⟨rfl, rfl⟩
  exact ⟨group, k, m, left, right, SortKey.noLater_trans before later⟩

theorem precedes_total (one : OneGroup group ts) (left : t ∈ ts) (right : u ∈ ts) :
    Precedes extreme t u ∨ Precedes extreme u t := by
  rcases one t left with ⟨k, first⟩
  rcases one u right with ⟨l, second⟩
  rw [precedes_iff first second, precedes_iff second first]
  exact SortKey.noLater_total (Token.sameKind_of_compares first second)

theorem precedes_of_leads (one : OneGroup group ts) (leads : Leads (Precedes extreme) ts t) :
    ∀ u ∈ ts, Precedes extreme t u :=
  before_of_leads (fun _ member => precedes_total one (mem_of_leads leads) member) leads

theorem oneGroup_singleton : OneGroup group [t] ↔ ∃ key, Compares t group key := by
  simp [OneGroup]

theorem oneGroup_append :
    OneGroup group (ts ++ us) ↔ OneGroup group ts ∧ OneGroup group us := by
  simp only [OneGroup, List.mem_append, or_imp, forall_and]

theorem oneGroup_perm (perm : ts.Perm us) : OneGroup group ts ↔ OneGroup group us := by
  simp only [OneGroup, perm.mem_iff]

/-- A candidate that carries the key of its value in a group. -/
def Keyed (group : ComparisonGroup) (c : Candidate Float) : Prop := Compares c.token group c.key

variable {c d : Candidate Float} {cs : List (Candidate Float)}

theorem candidate?_eq_some_iff : candidate? t = some c ↔ c.token = t ∧ Keyed c.group c := by
  unfold candidate?
  rw [Option.map_eq_some_iff]
  constructor
  · intro known
    rcases known with ⟨⟨group, key⟩, classified, rfl⟩
    exact ⟨rfl, Token.classify?_eq_some_iff.mp classified⟩
  · intro known
    rcases known with ⟨rfl, keyed⟩
    exact ⟨(c.group, c.key), Token.classify?_eq_some_iff.mpr keyed, rfl⟩

theorem mapM_candidate?_eq_some_iff :
    ts.mapM candidate? = some cs ↔ cs.map Candidate.token = ts ∧ ∀ c ∈ cs, Keyed c.group c := by
  induction ts generalizing cs with
  | nil => cases cs <;> simp
  | cons t ts ih =>
      rw [List.mapM_cons]
      cases cs with
      | nil => cases candidate? t <;> cases ts.mapM candidate? <;> simp
      | cons c cs =>
          have split : (do return (← candidate? t) :: (← ts.mapM candidate?)) = some (c :: cs) ↔
              candidate? t = some c ∧ ts.mapM candidate? = some cs := by
            simp [Option.bind_eq_some_iff]
          rw [split, candidate?_eq_some_iff, ih, List.map_cons, List.cons.injEq,
            List.forall_mem_cons, and_and_and_comm]

theorem exists_candidates (one : OneGroup group ts) :
    ∃ cs, ts.mapM candidate? = some cs ∧ ∀ c ∈ cs, c.group = group := by
  simp only [mapM_candidate?_eq_some_iff]
  induction ts with
  | nil => exact ⟨[], by simp⟩
  | cons t ts ih =>
      rcases one t (List.mem_cons_self ..) with ⟨key, compares⟩
      rcases ih (fun u member => one u (List.mem_cons_of_mem _ member)) with
        ⟨cs, ⟨tokens, keyed⟩, same⟩
      refine ⟨⟨group, key, t⟩ :: cs, ⟨?_, ?_⟩, ?_⟩
      · rw [List.map_cons, tokens]
      · exact List.forall_mem_cons.mpr ⟨compares, keyed⟩
      · exact List.forall_mem_cons.mpr ⟨rfl, same⟩

/-- Of candidates of one group the leading one is ranked first. -/
theorem leads_ranked (extreme : Extreme) (present : cs ≠ []) (keyed : ∀ c ∈ cs, Keyed group c) :
    ∃ c, (extreme.ranked cs).head? = some c ∧
      Leads (Precedes extreme) (cs.map Candidate.token) c.token := by
  let all := cs.attachWith (Keyed group) keyed
  have values : all.map Subtype.val = cs := List.attachWith_map_subtype_val keyed
  have alike (x y : { c // Keyed group c }) :
      (x.1.key.rank extreme y.1.key).isLE = true ↔ Precedes extreme x.1.token y.1.token := by
    rw [SortKey.isLE_rank_iff (Token.sameKind_of_compares x.2 y.2), precedes_iff x.2 y.2]
  have trans (x y z : { c // Keyed group c }) (first : Precedes extreme x.1.token y.1.token)
      (second : Precedes extreme y.1.token z.1.token) : Precedes extreme x.1.token z.1.token :=
    precedes_trans first second
  have total (x y : { c // Keyed group c }) :
      Precedes extreme x.1.token y.1.token ∨ Precedes extreme y.1.token x.1.token := by
    rw [precedes_iff x.2 y.2, precedes_iff y.2 x.2]
    exact SortKey.noLater_total (Token.sameKind_of_compares x.2 y.2)
  have nonempty : all ≠ [] := by
    intro none
    rw [none] at values
    exact present values.symm
  obtain ⟨c, first, leads⟩ := leads_mergeSort_map
    (fun c d => (c.key.rank extreme d.key).isLE) Subtype.val _ alike trans total nonempty
  rw [values] at first
  refine ⟨c.1, first, ?_⟩
  rw [← values, List.map_map]
  exact leads_map leads

theorem several_groups_iff {α : Type} {c : Candidate α} {cs : List (Candidate α)} :
    1 < (groups (c :: cs)).length ↔ ∃ d ∈ cs, d.group ≠ c.group := by
  rw [groups, List.map_cons, List.eraseDups_cons, List.length_cons, Nat.lt_add_left_iff_pos,
    List.length_pos_iff_exists_mem]
  simp only [List.mem_eraseDups, List.mem_filter, List.mem_map, Bool.not_eq_true',
    beq_eq_false_iff_ne]
  constructor
  · rintro ⟨_, ⟨d, member, rfl⟩, other⟩
    exact ⟨d, member, other⟩
  · rintro ⟨d, member, other⟩
    exact ⟨d.group, ⟨d, member, rfl⟩, other⟩

/-- Of the values of one group the leading one is selected. -/
theorem exists_select (extreme : Extreme) (present : ts ≠ []) (one : OneGroup group ts) :
    ∃ t, extreme.select ts = .token t ∧ Leads (Precedes extreme) ts t := by
  match ts, present, one with
  | [t], _, _ => exact ⟨t, rfl, leads_singleton t⟩
  | t :: u :: ts, _, one =>
      rcases exists_candidates one with ⟨cs, candidates, same⟩
      rcases mapM_candidate?_eq_some_iff.mp candidates with ⟨tokens, keyed⟩
      cases cs with
      | nil => cases tokens
      | cons c cs =>
          have all (d : Candidate Float) (member : d ∈ c :: cs) : Keyed group d := by
            rw [← same d member]
            exact keyed d member
          have single : ¬ 1 < (groups (c :: cs)).length := by
            rw [several_groups_iff]
            rintro ⟨d, member, other⟩
            apply other
            rw [same d (List.mem_cons_of_mem _ member), same c (List.mem_cons_self ..)]
          rcases leads_ranked extreme (List.cons_ne_nil c cs) all with ⟨d, first, leads⟩
          refine ⟨d.token, ?_, ?_⟩
          · simp only [select, candidates, single, if_false, first]
          · rw [← tokens]
            exact leads

theorem select_eq_token_iff (present : ts ≠ []) (one : OneGroup group ts) :
    extreme.select ts = .token t ↔ Leads (Precedes extreme) ts t := by
  rcases exists_select extreme present one with ⟨u, selected, leads⟩
  constructor
  · intro answer
    rw [selected] at answer
    cases answer
    exact leads
  · intro other
    rw [selected, leads_unique leads other]

/-- Several values that are not of one group leave the call as it is written. -/
theorem select_eq_unresolved_iff (several : 2 ≤ ts.length) :
    extreme.select ts = .unresolved ↔ ¬ ∃ group, OneGroup group ts := by
  constructor
  · intro answer one
    rcases one with ⟨group, one⟩
    have present : ts ≠ [] := List.ne_nil_of_length_pos (by omega)
    rcases exists_select extreme present one with ⟨t, selected, _⟩
    rw [answer] at selected
    cases selected
  · intro mixed
    match ts, several, mixed with
    | t :: u :: ts, _, mixed =>
        cases candidates : (t :: u :: ts).mapM candidate? with
        | none => simp only [select, candidates]
        | some cs =>
            rcases mapM_candidate?_eq_some_iff.mp candidates with ⟨tokens, keyed⟩
            cases cs with
            | nil => cases tokens
            | cons c cs =>
                have several : 1 < (groups (c :: cs)).length := by
                  rw [several_groups_iff]
                  apply Classical.byContradiction
                  intro alike
                  apply mixed
                  refine ⟨c.group, ?_⟩
                  intro v member
                  rw [← tokens] at member
                  rcases List.mem_map.mp member with ⟨d, present, rfl⟩
                  have same : d.group = c.group := by
                    rcases List.mem_cons.mp present with rfl | later
                    · rfl
                    · exact Classical.byContradiction fun other => alike ⟨d, later, other⟩
                  rw [← same]
                  exact ⟨d.key, keyed d present⟩
                simp only [select, candidates, several, if_true]

end StyleFunctions.Extreme
