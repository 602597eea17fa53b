import Mathlib.Data.List.Induction
import StyleFunctions.Proofs.Registry.Views

/-!
The overview by category. The entries are filed one by one, each under the category of its function; what
is left is a section for every category, with the names of its functions in ascending order.
-/

namespace StyleFunctions.Registry

variable {α : Type} {r : Registry α}

/-- The keys of the functions of one category, in the order of the entries. -/
def keysIn (category : String) (entries : List (String × Builtin α)) : List String :=
  (entries.filter fun entry => entry.2.signature.category == category).map Prod.fst

def categories (r : Registry α) : List String :=
  ascending (r.builtins.map fun f => f.signature.category).eraseDups

/-- The names of the functions of one category. -/
def namesIn (r : Registry α) (category : String) : List String :=
  ascending (keysIn category r.entries)

section Sections

variable {category name c : String} {filed : List (String × List String)}

theorem mem_map_file :
    c ∈ (file category name filed).map Prod.fst ↔ c = category ∨ c ∈ filed.map Prod.fst := by
  fun_induction file category name filed with
  | case1 => simp
  | case2 c' names filed first => simp
  | case3 c' names filed first later ih =>
      rw [List.map_cons, List.mem_cons, ih, List.map_cons, List.mem_cons]
      exact or_left_comm
  | case4 c' names filed first later =>
      have same : category = c' := String.le_antisymm (String.not_lt.mp later) (String.not_lt.mp first)
      simp [same]

theorem file_ascending (sorted : (filed.map Prod.fst).Pairwise (· < ·)) :
    ((file category name filed).map Prod.fst).Pairwise (· < ·) := by
  fun_induction file category name filed with
  | case1 => simp
  | case2 c' names filed first =>
      obtain ⟨below, _⟩ := List.pairwise_cons.mp sorted
      refine List.pairwise_cons.mpr ⟨?_, sorted⟩
      intro d member
      rcases List.mem_cons.mp member with rfl | behind
      · exact first
      · exact String.lt_trans first (below d behind)
  | case3 c' names filed first later ih =>
      obtain ⟨below, rest⟩ := List.pairwise_cons.mp sorted
      refine List.pairwise_cons.mpr ⟨?_, ih rest⟩
      intro d member
      rcases mem_map_file.mp member with rfl | behind
      · exact later
      · exact below d behind
  | case4 c' names filed first later => exact sorted

/-- A category before the first one has no section. -/
theorem lookup_eq_none_of_lt {names : List String}
    (sorted : (((c, names) :: filed).map Prod.fst).Pairwise (· < ·)) (first : category < c) :
    ((c, names) :: filed).lookup category = none := by
  rw [List.lookup_eq_none_iff]
  intro pair member
  obtain ⟨below, _⟩ := List.pairwise_cons.mp sorted
  have above : category < pair.1 := by
    rcases List.mem_cons.mp member with rfl | behind
    · exact first
    · exact String.lt_trans first (below pair.1 (List.mem_map_of_mem behind))
  have other : category ≠ pair.1 := fun same => String.lt_irrefl _ (same ▸ above)
  simpa using other

/-- A name is filed behind those of its category, and the other sections stay. -/
theorem lookup_file (sorted : (filed.map Prod.fst).Pairwise (· < ·)) :
    (file category name filed).lookup c =
      if c = category then some ((filed.lookup category).getD [] ++ [name]) else filed.lookup c := by
  fun_induction file category name filed with
  | case1 =>
      rw [List.lookup_cons]
      by_cases same : c = category
      · simp [same]
      · rw [if_neg same, beq_false_of_ne same]
  | case2 c' names filed first =>
      by_cases same : c = category
      · rw [if_pos same, lookup_eq_none_of_lt sorted first, same, List.lookup_cons_self]
        rfl
      · have other : (c == category) = false := by simpa using same
        rw [if_neg same, List.lookup_cons, other]
  | case3 c' names filed first later ih =>
      obtain ⟨_, rest⟩ := List.pairwise_cons.mp sorted
      have other : (category == c') = false := by
        rw [beq_eq_false_iff_ne]
        rintro rfl
        exact String.lt_irrefl _ later
      rw [List.lookup_cons, ih rest, List.lookup_cons, List.lookup_cons, other]
      by_cases same : c = category
      · rw [if_pos same, if_pos same, same, other]
      · rw [if_neg same, if_neg same]
  | case4 c' names filed first later =>
      have same : category = c' := String.le_antisymm (String.not_lt.mp later) (String.not_lt.mp first)
      subst same
      rw [List.lookup_cons, List.lookup_cons, List.lookup_cons, beq_self_eq_true]
      by_cases same : c = category
      · rw [if_pos same, same, beq_self_eq_true]
        rfl
      · have other : (c == category) = false := by simpa using same
        rw [if_neg same, other]

end Sections

/-- Filing all entries leaves a section for each category, with the keys of its functions. -/
theorem lookup_sections (entries : List (String × Builtin α)) :
    ((sections entries).map Prod.fst).Pairwise (· < ·) ∧
      ∀ c, (sections entries).lookup c =
        if keysIn c entries = [] then none else some (keysIn c entries) := by
  induction entries using List.reverseRecOn with
  | nil => exact ⟨.nil, fun c => rfl⟩
  | append_singleton entries entry ih =>
      obtain ⟨sorted, found⟩ := ih
      have step : sections (entries ++ [entry]) =
          file entry.2.signature.category entry.1 (sections entries) := List.foldl_concat ..
      rw [step]
      refine ⟨file_ascending sorted, fun c => ?_⟩
      have more : keysIn c (entries ++ [entry]) =
          keysIn c entries ++ if entry.2.signature.category = c then [entry.1] else [] := by
        rw [keysIn, List.filter_append, List.map_append, ← keysIn]
        by_cases same : entry.2.signature.category = c <;> simp [same]
      rw [lookup_file sorted, found, found, more]
      by_cases same : entry.2.signature.category = c
      · rw [if_pos same.symm, if_pos same, same, if_neg (List.append_ne_nil_of_right_ne_nil _ (by simp))]
        split
        · rename_i nothing
          rw [nothing]
          rfl
        · rfl
      · rw [if_neg (Ne.symm same), if_neg same, List.append_nil]

theorem nodup_eraseDups (names : List String) : names.eraseDups.Nodup := by
  match names with
  | [] => simp
  | name :: names =>
      rw [List.eraseDups_cons, List.nodup_cons]
      exact ⟨by simp, nodup_eraseDups _⟩
termination_by names.length
decreasing_by exact Nat.lt_succ_of_le (List.length_filter_le _ names)

theorem categories_ascending (r : Registry α) : r.categories.Pairwise (· < ·) :=
  ascending_lt (nodup_eraseDups _)

theorem mem_categories (r : Registry α) {category : String} :
    category ∈ r.categories ↔ ∃ f ∈ r.builtins, f.signature.category = category := by
  rw [categories, mem_ascending, List.mem_eraseDups, List.mem_map]

theorem keysIn_ne_nil_iff (r : Registry α) {category : String} :
    keysIn category r.entries ≠ [] ↔ category ∈ r.categories := by
  rw [mem_categories, ne_eq, keysIn, List.map_eq_nil_iff, List.filter_eq_nil_iff]
  simp only [beq_iff_eq, not_forall, not_not, builtins, List.mem_map]
  constructor
  · rintro ⟨entry, member, same⟩
    exact ⟨entry.2, ⟨entry, member, rfl⟩, same⟩
  · rintro ⟨_, ⟨entry, member, rfl⟩, same⟩
    exact ⟨entry, member, same⟩

theorem sections_eq (r : Registry α) :
    sections r.entries = r.categories.map fun category => (category, keysIn category r.entries) := by
  obtain ⟨sorted, found⟩ := lookup_sections r.entries
  have ordered : (sections r.entries).Pairwise fun p q => p.1 < q.1 := List.pairwise_map.mp sorted
  have listed : (r.categories.map fun category => (category, keysIn category r.entries)).Pairwise
      fun p q => p.1 < q.1 :=
    List.pairwise_map.mpr r.categories_ascending
  have members : ∀ p, p ∈ sections r.entries ↔
      p ∈ r.categories.map fun category => (category, keysIn category r.entries) := by
    rintro ⟨c, names⟩
    rw [← lookup_eq_some_iff sorted.nodup, found c, List.mem_map]
    split
    · rename_i nothing
      simp only [reduceCtorEq, Prod.mk.injEq, false_iff]
      rintro ⟨d, inside, rfl, _⟩
      exact r.keysIn_ne_nil_iff.mpr inside nothing
    · rename_i some
      rw [Option.some.injEq]
      constructor
      · rintro rfl
        exact ⟨c, r.keysIn_ne_nil_iff.mp some, rfl⟩
      · rintro ⟨d, _, same⟩
        obtain ⟨rfl, rfl⟩ := Prod.mk.inj same
        rfl
  have distinct {pairs : List (String × List String)}
      (ordered : pairs.Pairwise fun p q => p.1 < q.1) : pairs.Nodup :=
    (List.pairwise_map.mpr ordered : (pairs.map Prod.fst).Pairwise (· < ·)).nodup.of_map
  apply ((List.perm_ext_iff_of_nodup (distinct ordered) (distinct listed)).mpr members).eq_of_pairwise
    _ ordered listed
  intro p q _ _ less greater
  exact absurd (String.lt_trans less greater) (String.lt_irrefl p.1)

theorem overview_eq (r : Registry α) :
    r.overview = r.categories.map fun category => (category, r.namesIn category) := by
  rw [overview, sections_eq, List.map_map]
  rfl

theorem namesIn_ascending (r : Registry α) (category : String) :
    (r.namesIn category).Pairwise (· < ·) :=
  ascending_lt (r.keys_nodup.sublist (List.filter_sublist.map _))

theorem Keyed.mem_namesIn (keyed : r.Keyed) {category name : String} :
    name ∈ r.namesIn category ↔
      ∃ f ∈ r.builtins, f.name = name ∧ f.signature.category = category := by
  simp only [namesIn, mem_ascending, keysIn, List.mem_map, List.mem_filter, beq_iff_eq, builtins]
  constructor
  · rintro ⟨entry, ⟨member, same⟩, rfl⟩
    exact ⟨entry.2, ⟨entry, member, rfl⟩, (keyed entry member).symm, same⟩
  · rintro ⟨f, ⟨entry, member, rfl⟩, rfl, same⟩
    exact ⟨entry, ⟨member, same⟩, keyed entry member⟩

/-- The sections of the overview have different names, and each name of the registry is in one. -/
theorem Keyed.overview_perm (keyed : r.Keyed) : (r.overview.flatMap Prod.snd).Perm r.names := by
  have sections : r.overview.flatMap Prod.snd = r.categories.flatMap r.namesIn := by
    rw [overview_eq, List.flatMap_map]
  have distinct : (r.categories.flatMap r.namesIn).Nodup := by
    rw [List.nodup_flatMap]
    constructor
    · intro category _
      exact (r.namesIn_ascending category).nodup
    · apply r.categories_ascending.imp
      intro c d less name left right
      obtain ⟨f, member, rfl, inFirst⟩ := keyed.mem_namesIn.mp left
      obtain ⟨g, other, same, inSecond⟩ := keyed.mem_namesIn.mp right
      rw [keyed.eq_of_name other member same, inFirst] at inSecond
      exact String.lt_irrefl d (inSecond ▸ less)
  rw [sections, List.perm_ext_iff_of_nodup distinct r.names_nodup]
  intro name
  rw [List.mem_flatMap, keyed.mem_names]
  constructor
  · rintro ⟨category, _, inside⟩
    obtain ⟨f, member, same, _⟩ := keyed.mem_namesIn.mp inside
    exact ⟨f, member, same⟩
  · rintro ⟨f, member, same⟩
    exact ⟨f.signature.category, r.mem_categories.mpr ⟨f, member, rfl⟩,
      keyed.mem_namesIn.mpr ⟨f, member, same, rfl⟩⟩

end StyleFunctions.Registry
