import Mathlib.Data.List.Induction
import Mathlib.Data.List.Nodup
import Mathlib.Data.List.Pairwise
import StyleFunctions.Registry.Basic

/-!
The functions of a registry are the last ones that were registered under their names, and nothing else
about the order or the number of registrations matters. That a function stands under its own name is no
property of a table: it holds of the tables that registrations lead to.
-/

namespace StyleFunctions

variable {α : Type} {f g : Builtin α} {fs gs : List (Builtin α)}

/-- The last of the functions that were registered under its name. -/
def Latest (fs : List (Builtin α)) (f : Builtin α) : Prop :=
  ∃ earlier later, fs = earlier ++ f :: later ∧ ∀ g ∈ later, g.name ≠ f.name

theorem mem_of_latest (latest : Latest fs f) : f ∈ fs := by
  rcases latest with ⟨earlier, later, rfl, _⟩
  simp

theorem latest_append :
    Latest (fs ++ gs) f ↔ Latest gs f ∨ Latest fs f ∧ ∀ g ∈ gs, g.name ≠ f.name := by
  constructor
  · rintro ⟨earlier, later, split, last⟩
    rcases List.append_eq_append_iff.mp split with ⟨rest, rfl, rfl⟩ | ⟨rest, rfl, cut⟩
    · exact .inl ⟨rest, later, rfl, last⟩
    · match rest with
      | [] => exact .inl ⟨[], later, cut.symm, last⟩
      | k :: rest =>
          rw [List.cons_append, List.cons.injEq] at cut
          rcases cut with ⟨rfl, rfl⟩
          refine .inr ⟨⟨earlier, rest, rfl, ?_⟩, ?_⟩
          · intro g member
            exact last g (List.mem_append_left gs member)
          · intro g member
            exact last g (List.mem_append_right rest member)
  · rintro (⟨earlier, later, rfl, last⟩ | ⟨⟨earlier, later, rfl, last⟩, other⟩)
    · exact ⟨fs ++ earlier, later, by simp, last⟩
    · refine ⟨earlier, later ++ gs, by simp, ?_⟩
      intro g member
      rcases List.mem_append.mp member with inside | behind
      · exact last g inside
      · exact other g behind

theorem latest_singleton : Latest [g] f ↔ f = g := by
  constructor
  · intro latest
    exact List.mem_singleton.mp (mem_of_latest latest)
  · rintro rfl
    exact ⟨[], [], rfl, by simp⟩

theorem latest_concat : Latest (fs ++ [g]) f ↔ f = g ∨ Latest fs f ∧ g.name ≠ f.name := by
  simp [latest_append, latest_singleton]

/-- Every name that was registered has a last function. -/
theorem exists_latest (member : g ∈ fs) : ∃ f, Latest fs f ∧ f.name = g.name := by
  induction fs using List.reverseRecOn with
  | nil => simp at member
  | append_singleton fs k ih =>
      simp only [latest_concat]
      by_cases same : k.name = g.name
      · exact ⟨k, .inl rfl, same⟩
      · have before : g ∈ fs := by
          rcases List.mem_append.mp member with before | last
          · exact before
          · rw [List.mem_singleton] at last
            exact absurd (congrArg Builtin.name last.symm) same
        obtain ⟨f, latest, name⟩ := ih before
        exact ⟨f, .inr ⟨latest, name ▸ same⟩, name⟩

/-- A function that is registered again under its name might as well not have been there. -/
theorem latest_overwritten (again : ∃ g ∈ gs, g.name = f.name) {h : Builtin α} :
    Latest (fs ++ f :: gs) h ↔ Latest (fs ++ gs) h := by
  obtain ⟨g, member, same⟩ := again
  have covered : (∀ k ∈ gs, k.name ≠ h.name) → f.name ≠ h.name := by
    intro others
    exact same ▸ others g member
  rw [List.append_cons, latest_append, latest_concat, latest_append]
  constructor
  · rintro (later | ⟨rfl | ⟨earlier, _⟩, others⟩)
    · exact .inl later
    · exact absurd rfl (covered others)
    · exact .inr ⟨earlier, others⟩
  · rintro (later | ⟨earlier, others⟩)
    · exact .inl later
    · exact .inr ⟨.inr ⟨earlier, covered others⟩, others⟩

/-- Functions of which no two share a name are all last, in whatever order they come. -/
theorem latest_of_distinct (distinct : ∀ f ∈ fs, ∀ g ∈ fs, f.name = g.name → f = g) :
    Latest fs f ↔ f ∈ fs := by
  constructor
  · exact mem_of_latest
  · intro member
    obtain ⟨g, latest, same⟩ := exists_latest member
    rw [← distinct g (mem_of_latest latest) f member same]
    exact latest

namespace Registry

variable {r s : Registry α} {name : String} {entry : String × Builtin α}

/-! ### Entries -/

/-- Of a list of pairs with different keys every pair is found by its key. -/
theorem lookup_eq_some_iff {β : Type} {pairs : List (String × β)} (distinct : (pairs.map Prod.fst).Nodup)
    {key : String} {value : β} : pairs.lookup key = some value ↔ (key, value) ∈ pairs := by
  rw [List.lookup_eq_some_iff]
  constructor
  · rintro ⟨front, back, rfl, _⟩
    simp
  · intro member
    obtain ⟨front, back, rfl⟩ := List.append_of_mem member
    refine ⟨front, back, rfl, ?_⟩
    rw [List.map_append, List.nodup_append] at distinct
    intro pair earlier
    have other := distinct.2.2 pair.1 (List.mem_map_of_mem earlier) key (by simp)
    simpa using other.symm

theorem find?_eq_some_iff (r : Registry α) : r.find? name = some f ↔ (name, f) ∈ r.entries :=
  lookup_eq_some_iff r.keys_nodup

theorem find?_eq_none_iff (r : Registry α) : r.find? name = none ↔ name ∉ r.keys := by
  rw [Option.eq_none_iff_forall_ne_some, keys, List.mem_map]
  simp only [ne_eq, find?_eq_some_iff]
  constructor
  · rintro absent ⟨⟨key, f⟩, member, rfl⟩
    exact absent f member
  · intro absent f member
    exact absent ⟨_, member, rfl⟩

theorem mem_put : entry ∈ (r.put name f).entries ↔
    entry = (name, f) ∨ entry ∈ r.entries ∧ entry.1 ≠ name := by
  simp [put]

theorem entries_nodup (r : Registry α) : r.entries.Nodup := r.keys_nodup.of_map

/-- Every function stands under the name in its signature. -/
def Keyed (r : Registry α) : Prop := ∀ entry ∈ r.entries, entry.1 = entry.2.name

theorem Keyed.mem_builtins (keyed : r.Keyed) : f ∈ r.builtins ↔ (f.name, f) ∈ r.entries := by
  rw [builtins, List.mem_map]
  constructor
  · rintro ⟨⟨key, f⟩, member, rfl⟩
    have same : key = f.name := keyed _ member
    exact same ▸ member
  · intro member
    exact ⟨_, member, rfl⟩

theorem Keyed.map_name (keyed : r.Keyed) : r.builtins.map Builtin.name = r.keys := by
  rw [builtins, keys, List.map_map]
  exact List.map_congr_left fun entry member => (keyed entry member).symm

theorem Keyed.eq_of_name (keyed : r.Keyed) (left : f ∈ r.builtins) (right : g ∈ r.builtins)
    (same : f.name = g.name) : f = g :=
  List.inj_on_of_nodup_map (keyed.map_name ▸ r.keys_nodup) left right same

/-! ### What registrations lead to -/

/-- The tables that registering functions one after the other can lead to. Before, between and after the
registrations the table may bring its entries into any other order. -/
inductive Reaches : List (Builtin α) → Registry α → Prop where
  | empty : Reaches [] empty
  | insert {fs : List (Builtin α)} {r : Registry α} (f : Builtin α) :
      Reaches fs r → Reaches (fs ++ [f]) (r.insert f)
  | rearranged {fs : List (Builtin α)} {r s : Registry α} :
      Reaches fs r → r.entries.Perm s.entries → Reaches fs s

/-- A registry holds the last function of each name, under that name, and nothing else. -/
theorem Reaches.mem_entries (reached : Reaches fs r) :
    entry ∈ r.entries ↔ entry.1 = entry.2.name ∧ Latest fs entry.2 := by
  induction reached with
  | empty =>
      constructor
      · intro member
        cases member
      · rintro ⟨_, latest⟩
        cases mem_of_latest latest
  | insert f _ ih =>
      rw [Registry.insert, mem_put, ih, latest_concat]
      constructor
      · rintro (rfl | ⟨⟨same, latest⟩, other⟩)
        · exact ⟨rfl, .inl rfl⟩
        · exact ⟨same, .inr ⟨latest, same ▸ other.symm⟩⟩
      · rintro ⟨same, rfl | ⟨latest, other⟩⟩
        · exact .inl (Prod.ext same rfl)
        · exact .inr ⟨⟨same, latest⟩, same ▸ other.symm⟩
  | rearranged _ perm ih => rw [← perm.mem_iff, ih]

theorem Reaches.keyed (reached : Reaches fs r) : r.Keyed :=
  fun _ member => (reached.mem_entries.mp member).1

theorem Reaches.mem_builtins (reached : Reaches fs r) : f ∈ r.builtins ↔ Latest fs f := by
  rw [reached.keyed.mem_builtins, reached.mem_entries, eq_self_iff_true, true_and]

/-- Which functions are the last of their names is all that a table depends on, but for its order. -/
theorem Reaches.perm (first : Reaches fs r) (second : Reaches gs s)
    (same : ∀ f, Latest fs f ↔ Latest gs f) : r.entries.Perm s.entries := by
  apply (List.perm_ext_iff_of_nodup r.entries_nodup s.entries_nodup).mpr
  intro entry
  rw [first.mem_entries, second.mem_entries, same]

theorem Reaches.insertAll (reached : Reaches fs r) (gs : List (Builtin α)) :
    Reaches (fs ++ gs) (r.insertAll gs) := by
  induction gs generalizing fs r with
  | nil => rwa [List.append_nil]
  | cons g gs ih =>
      rw [List.append_cons]
      exact ih (reached.insert g)

theorem reaches_insertAll (fs : List (Builtin α)) : Reaches fs (empty.insertAll fs) :=
  Reaches.empty.insertAll fs

end Registry

end StyleFunctions
