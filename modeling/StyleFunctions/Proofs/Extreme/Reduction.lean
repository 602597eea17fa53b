import StyleFunctions.Proofs.Extreme.Selection

/-!
The selection as a reduction: parts of a list may be reduced before the whole, and another order of
the values changes the answer to one that ranks equal at most.
-/

namespace StyleFunctions.Extreme

open Token (Compares)
open SortKey (NoLater)

variable {extreme : Extreme} {group : ComparisonGroup} {t u v : Token Float}
  {ts us : List (Token Float)}

/-- What leads the leaders of two lists leads the lists put together. -/
theorem leads_of_pair (one : OneGroup group (ts ++ us)) (first : Leads (Precedes extreme) ts t)
    (second : Leads (Precedes extreme) us u) (pair : Leads (Precedes extreme) [t, u] v) :
    Leads (Precedes extreme) (ts ++ us) v := by
  rcases oneGroup_append.mp one with ⟨left, right⟩
  by_cases before : Precedes extreme t u
  · have wins : Leads (Precedes extreme) ([t] ++ [u]) t := by
      apply leads_append_left (leads_singleton t)
      simpa using before
    have same : v = t := leads_unique pair wins
    subst same
    apply leads_append_left first
    intro w member
    exact precedes_trans before (precedes_of_leads right second w member)
  · have wins : Leads (Precedes extreme) ([t] ++ [u]) u := by
      apply leads_append_right (leads_singleton u)
      simpa using before
    have same : v = u := leads_unique pair wins
    subst same
    apply leads_append_right second
    intro w member precedes
    exact before (precedes_trans (precedes_of_leads left first w member) precedes)

theorem select_append (xs : ts ≠ []) (ys : us ≠ []) (one : OneGroup group (ts ++ us)) :
    ∃ t u v, extreme.select ts = .token t ∧ extreme.select us = .token u ∧
      extreme.select [t, u] = .token v ∧ extreme.select (ts ++ us) = .token v := by
  rcases oneGroup_append.mp one with ⟨left, right⟩
  rcases exists_select extreme xs left with ⟨t, first, tLeads⟩
  rcases exists_select extreme ys right with ⟨u, second, uLeads⟩
  have two : OneGroup group [t, u] := by
    have tKey := left t (mem_of_leads tLeads)
    have uKey := right u (mem_of_leads uLeads)
    simpa [OneGroup] using ⟨tKey, uKey⟩
  rcases exists_select extreme (List.cons_ne_nil t [u]) two with ⟨v, pair, vLeads⟩
  have whole := leads_of_pair one tLeads uLeads vLeads
  have present : ts ++ us ≠ [] := by simp [xs]
  exact ⟨t, u, v, first, second, pair, (select_eq_token_iff present one).mpr whole⟩

/-- Two values of one group whose keys rank equal. -/
def RankEqual (extreme : Extreme) (t u : Token Float) : Prop :=
  ∃ group k l, Compares t group k ∧ Compares u group l ∧ k.rank extreme l = .eq

theorem rankEqual_of_precedes (first : Precedes extreme t u) (second : Precedes extreme u t) :
    RankEqual extreme t u := by
  rcases first with ⟨group, k, l, left, right, before⟩
  refine ⟨group, k, l, left, right, ?_⟩
  rw [SortKey.rank_eq_eq_iff (Token.sameKind_of_compares left right)]
  exact ⟨before, (precedes_iff right left).mp second⟩

theorem exists_select_perm (present : ts ≠ []) (one : OneGroup group ts) (perm : ts.Perm us) :
    ∃ t u, extreme.select ts = .token t ∧ extreme.select us = .token u ∧ RankEqual extreme t u := by
  have other := (oneGroup_perm perm).mp one
  have nonempty : us ≠ [] := by
    intro empty
    rw [empty] at perm
    exact present perm.eq_nil
  rcases exists_select extreme present one with ⟨t, first, tLeads⟩
  rcases exists_select extreme nonempty other with ⟨u, second, uLeads⟩
  refine ⟨t, u, first, second, rankEqual_of_precedes ?_ ?_⟩
  · exact precedes_of_leads one tLeads u (perm.mem_iff.mpr (mem_of_leads uLeads))
  · exact precedes_of_leads other uLeads t (perm.mem_iff.mp (mem_of_leads tLeads))

theorem unresolved_perm (several : 2 ≤ ts.length) (mixed : ¬ ∃ group, OneGroup group ts)
    (perm : ts.Perm us) :
    extreme.select ts = .unresolved ∧ extreme.select us = .unresolved := by
  refine ⟨(select_eq_unresolved_iff several).mpr mixed, ?_⟩
  rw [perm.length_eq] at several
  rw [select_eq_unresolved_iff several]
  intro one
  rcases one with ⟨group, one⟩
  exact mixed ⟨group, (oneGroup_perm perm).mpr one⟩

theorem call_of_not_oneGroup (mixed : ¬ ∃ group, OneGroup group [t]) :
    ∃ name arguments, t = .call name arguments := by
  apply Classical.byContradiction
  intro other
  have comparable : ∀ name arguments, t ≠ .call name arguments := by
    intro name arguments same
    exact other ⟨name, arguments, same⟩
  rcases Token.exists_compares_iff.mpr comparable with ⟨group, key, compares⟩
  exact mixed ⟨group, oneGroup_singleton.mpr ⟨key, compares⟩⟩

/-- Values of one group may be reduced in parts: the values selected from two lists stand for the
lists. And a list in another order is left as it is written, refused, or answered by a value that
ranks equal; a call alone has no rank and comes back itself. -/
theorem select_reduction (extreme : Extreme) :
    (∀ (group : ComparisonGroup) (xs ys : List (Token Float)), xs ≠ [] → ys ≠ [] →
      (∀ t ∈ xs ++ ys, ∃ key, Compares t group key) →
        ∃ t u v, extreme.select xs = .token t ∧ extreme.select ys = .token u ∧
          extreme.select [t, u] = .token v ∧ extreme.select (xs ++ ys) = .token v) ∧
    ∀ ts us : List (Token Float), ts.Perm us →
      (extreme.select ts = .unresolved ∧ extreme.select us = .unresolved) ∨
      (extreme.select ts = .error Fault.noArguments.report ∧
        extreme.select us = .error Fault.noArguments.report) ∨
      (∃ t u, extreme.select ts = .token t ∧ extreme.select us = .token u ∧
        RankEqual extreme t u) ∨
      ∃ name arguments, ts = [.call name arguments] ∧ us = ts ∧
        extreme.select ts = .token (.call name arguments) := by
  constructor
  · intro group xs ys left right one
    exact select_append left right one
  · intro ts us perm
    match ts with
    | [] =>
        have empty : us = [] := perm.symm.eq_nil
        subst empty
        exact .inr (.inl ⟨rfl, rfl⟩)
    | t :: ts =>
        by_cases one : ∃ group, OneGroup group (t :: ts)
        · rcases one with ⟨group, one⟩
          exact .inr (.inr (.inl (exists_select_perm (List.cons_ne_nil t ts) one perm)))
        · match ts with
          | [] =>
              have alone : us = [t] := perm.symm.eq_singleton
              rcases call_of_not_oneGroup one with ⟨name, arguments, rfl⟩
              exact .inr (.inr (.inr ⟨name, arguments, rfl, alone, rfl⟩))
          | u :: ts => exact .inl (unresolved_perm (by simp) one perm)

/-- Equal durations in different units: the first one of them is selected from the whole list and from
its parts, and another order selects one that ranks equal. -/
theorem select_reduction_durations :
    let xs : List (Token Float) := [.number ⟨Scalar.ofNat 2, "s"⟩, .number ⟨Scalar.ofNat 1000, "ms"⟩]
    let ys : List (Token Float) := [.number ⟨Scalar.ofNat 1, "s"⟩]
    (∃ t u v, Extreme.least.select xs = .token t ∧ Extreme.least.select ys = .token u ∧
      Extreme.least.select [t, u] = .token v ∧ Extreme.least.select (xs ++ ys) = .token v) ∧
    (xs ++ ys).Perm (ys ++ xs) ∧
    ∃ t u, Extreme.least.select (xs ++ ys) = .token t ∧
      Extreme.least.select (ys ++ xs) = .token u ∧ RankEqual .least t u := by
  intro xs ys
  have group : ∀ t ∈ xs ++ ys, ∃ key, Compares t (.quantity .duration) key := by
    intro t member
    simp only [xs, ys, List.cons_append, List.nil_append, List.mem_cons, List.not_mem_nil,
      or_false] at member
    rcases member with rfl | rfl | rfl
    · exact ⟨_, .measured .second rfl⟩
    · exact ⟨_, .measured .millisecond rfl⟩
    · exact ⟨_, .measured .second rfl⟩
  have perm : (xs ++ ys).Perm (ys ++ xs) := List.perm_append_comm
  have parts := (select_reduction .least).1 _ xs ys (List.cons_ne_nil _ _) (List.cons_ne_nil _ _) group
  refine ⟨parts, perm, ?_⟩
  rcases parts with ⟨_, _, v, _, _, _, whole⟩
  rcases (select_reduction .least).2 _ _ perm with
    ⟨unresolved, _⟩ | ⟨refused, _⟩ | equal | ⟨_, _, alone, _⟩
  · rw [whole] at unresolved
    cases unresolved
  · rw [whole] at refused
    cases refused
  · exact equal
  · cases alone

end StyleFunctions.Extreme
