import StyleFunctions.Library.Standard
import StyleFunctions.Proofs.Registry.Alike
import StyleFunctions.Scalar.Double

/-!
Whole histories of a registry: functions are registered one by one and libraries are loaded, in any
order and any number of times, and the table keeps its entries in any order. What the views show at the
end depends on the last function of each name only.
-/

namespace StyleFunctions

/-- The libraries that a registry can be loaded with. -/
inductive Collection where
  | units
  | colors
  | values
  deriving DecidableEq, Repr

namespace Collection

variable {α : Type} [Elementary α] [Numeral α]

def builtins : Collection → List (Builtin α)
  | units => Library.units
  | colors => Library.colors
  | values => Library.values

/-- The functions of all libraries have different names. -/
theorem names_nodup :
    ((Library.units ++ Library.colors ++ Library.values : List (Builtin α)).map
      Builtin.name).Nodup := by
  have names : (Library.units ++ Library.colors ++ Library.values : List (Builtin α)).map
      Builtin.name =
        (Library.units ++ Library.colors ++ Library.values : List (Builtin Float)).map
          Builtin.name := rfl
  rw [names]
  decide +kernel

theorem mem_all {c : Collection} {f : Builtin α} (member : f ∈ c.builtins) :
    f ∈ (Library.units ++ Library.colors ++ Library.values : List (Builtin α)) := by
  cases c with
  | units => exact List.mem_append_left _ (List.mem_append_left _ member)
  | colors => exact List.mem_append_left _ (List.mem_append_right _ member)
  | values => exact List.mem_append_right _ member

theorem eq_of_name {c d : Collection} {f g : Builtin α} (left : f ∈ c.builtins)
    (right : g ∈ d.builtins) (same : f.name = g.name) : f = g :=
  List.inj_on_of_nodup_map names_nodup (mem_all left) (mem_all right) same

end Collection

namespace Registry

/-- What can be done to a registry. -/
inductive Step (α : Type) where
  | register (f : Builtin α)
  | load (library : Collection)

variable {α : Type} [Elementary α] [Numeral α]

namespace Step

def builtins : Step α → List (Builtin α)
  | register f => [f]
  | load library => library.builtins

def apply (r : Registry α) : Step α → Registry α
  | register f => r.insert f
  | load library => r.insertAll library.builtins

end Step

/-- The registry after a history that began with none. -/
def run (steps : List (Step α)) : Registry α := steps.foldl Step.apply empty

/-- The functions that a history registers, in order. -/
def registered (steps : List (Step α)) : List (Builtin α) := steps.flatMap Step.builtins

/-- The program's own table is one of those that a history can lead to. -/
theorem reaches_run (steps : List (Step α)) : Reaches (registered steps) (run steps) := by
  induction steps using List.reverseRecOn with
  | nil => exact .empty
  | append_singleton steps step ih =>
      have before : run (steps ++ [step]) = step.apply (run steps) := List.foldl_concat ..
      have split : registered (steps ++ [step]) = registered steps ++ step.builtins := by
        simp [registered]
      rw [before, split]
      cases step with
      | register f => exact ih.insert f
      | load library => exact ih.insertAll library.builtins

/-- What the views of a registry show after the functions `fs` were registered in this order. -/
structure Shows (r : Registry α) (fs : List (Builtin α)) : Prop where
  contains_iff : ∀ name, r.contains name = true ↔ ∃ f ∈ fs, f.name = name
  call_latest : ∀ f, Latest fs f → ∀ context arguments,
    r.call context f.name arguments = f.call context arguments
  call_unknown : ∀ name, (∀ f ∈ fs, f.name ≠ name) → ∀ context arguments,
    r.call context name arguments = .unresolved
  mem_names : ∀ name, name ∈ r.names ↔ ∃ f ∈ fs, f.name = name
  ascending : r.names.Pairwise (· < ·)
  length : r.names.length = r.size
  /-- The listing follows the names, each with the signature of its last function. -/
  listing : List.Forall₂ (fun name s => ∃ f, Latest fs f ∧ f.name = name ∧ f.signature = s)
    r.names (r.list none)
  category : ∀ c, r.list (some c) = (r.list none).filter fun s => s.category == c
  /-- The overview has a section for each category, in ascending order, and in it the names of the last
  functions of that category. -/
  overview : ∃ sections, r.help none = .overview sections ∧
    (sections.map Prod.fst).Pairwise (· < ·) ∧ (sections.flatMap Prod.snd).Perm r.names ∧
    ∀ c names, (c, names) ∈ sections → names ≠ [] ∧ names.Pairwise (· < ·) ∧
      ∀ name, name ∈ names ↔ ∃ f, Latest fs f ∧ f.name = name ∧ f.signature.category = c

section Reached

omit [Elementary α] [Numeral α]

variable {r s : Registry α} {fs gs : List (Builtin α)}

theorem Reaches.shows (reached : Reaches fs r) : Shows r fs where
  contains_iff name := (r.contains_iff name).trans (reached.mem_names name)
  call_latest f latest := reached.keyed.call_of_mem (reached.mem_builtins.mpr latest)
  call_unknown name unknown := by
    apply r.call_of_absent
    rw [reached.mem_names]
    rintro ⟨f, member, same⟩
    exact unknown f member same
  mem_names := reached.mem_names
  ascending := r.names_ascending
  length := by
    rw [names, (ascending_perm _).length_eq, keys, List.length_map, size]
  listing := by
    rw [← reached.keyed.names_of_list, List.forall₂_map_left_iff, List.forall₂_same]
    intro s member
    rw [(r.list_perm none).mem_iff, selected_none, List.mem_map] at member
    obtain ⟨f, member, rfl⟩ := member
    exact ⟨f, reached.mem_builtins.mp member, rfl, rfl⟩
  category := reached.keyed.list_some
  overview := by
    refine ⟨r.overview, rfl, ?_, reached.keyed.overview_perm, ?_⟩
    · rw [overview_eq, List.map_map]
      simpa [Function.comp_def] using r.categories_ascending
    · intro c names member
      rw [overview_eq, List.mem_map] at member
      obtain ⟨c, inside, same⟩ := member
      rw [Prod.mk.injEq] at same
      obtain ⟨rfl, rfl⟩ := same
      refine ⟨?_, r.namesIn_ascending c, ?_⟩
      · obtain ⟨f, member, same⟩ := r.mem_categories.mp inside
        exact List.ne_nil_of_mem (reached.keyed.mem_namesIn.mpr ⟨f, member, rfl, same⟩)
      · intro name
        simp only [reached.keyed.mem_namesIn, reached.mem_builtins]

/-- Registries that were filled with the same last functions are alike, whatever the order of their
entries. -/
theorem Reaches.alike (first : Reaches fs r) (second : Reaches gs s)
    (same : ∀ f, Latest fs f ↔ Latest gs f) : Alike r s :=
  first.keyed.alike_of_perm (first.perm second same)

end Reached

theorem latest_loads {steps : List (Step α)} {loads : List Collection} {f : Builtin α} :
    Latest (registered (steps ++ loads.map Step.load)) f ↔
      (∃ c ∈ loads, f ∈ c.builtins) ∨
        Latest (registered steps) f ∧ ∀ g : Builtin α, ∀ c ∈ loads, g ∈ c.builtins →
          g.name ≠ f.name := by
  have split : registered (steps ++ loads.map Step.load) =
      registered steps ++ loads.flatMap Collection.builtins := by
    simp [registered, List.flatMap_map, Step.builtins]
  have distinct : ∀ f ∈ loads.flatMap (Collection.builtins (α := α)),
      ∀ g ∈ loads.flatMap Collection.builtins, f.name = g.name → f = g := by
    intro f left g right same
    obtain ⟨c, _, left⟩ := List.mem_flatMap.mp left
    obtain ⟨d, _, right⟩ := List.mem_flatMap.mp right
    exact Collection.eq_of_name left right same
  rw [split, latest_append, latest_of_distinct distinct]
  simp only [List.mem_flatMap, forall_exists_index, and_imp]

/-- The registry of all functions is one of those that loading all libraries can lead to. -/
theorem reaches_standardRegistry :
    Reaches (registered [Step.load .units, .load .colors, .load .values])
      (standardRegistry : Registry α) :=
  reaches_run [Step.load .units, .load .colors, .load .values]

/-- After every history, and for every order in which the table keeps its entries, the views show the last
function of each name. A function that is registered again under its name might as well not have been
there, and from any point on the libraries can be loaded in any order and any number of times. -/
theorem history_shows_latest :
    (∀ steps : List (Step α), Reaches (registered steps) (run steps)) ∧
      (∀ (steps : List (Step α)) r, Reaches (registered steps) r → Shows r (registered steps)) ∧
      (∀ (steps : List (Step α)) before f after, registered steps = before ++ f :: after →
        (∃ g ∈ after, g.name = f.name) →
          ∀ r s, Reaches (registered steps) r → Reaches (before ++ after) s → Alike r s) ∧
      (∀ (steps : List (Step α)) (loads loads' : List Collection), (∀ c, c ∈ loads ↔ c ∈ loads') →
        ∀ r s, Reaches (registered (steps ++ loads.map .load)) r →
          Reaches (registered (steps ++ loads'.map .load)) s → Alike r s) ∧
      ∀ loads : List Collection, (∀ c, c ∈ loads) →
        ∀ r, Reaches (registered (loads.map .load)) r → Alike r (standardRegistry : Registry α) := by
  refine ⟨reaches_run, fun steps r reached => reached.shows, ?overwritten, ?loaded, ?complete⟩
  case overwritten =>
    intro steps before f after split again r s first second
    apply first.alike second
    intro h
    rw [split, latest_overwritten again]
  case loaded =>
    intro steps loads loads' same r s first second
    apply first.alike second
    intro f
    simp only [latest_loads, same]
  case complete =>
    intro loads all r reached
    apply reached.alike reaches_standardRegistry
    intro f
    have once : ∀ c, c ∈ loads ↔ c ∈ [Collection.units, .colors, .values] := by
      intro c
      cases c <;> simp [all]
    have left : Latest (registered ([] ++ loads.map Step.load)) f ↔ _ := latest_loads
    have right : Latest (registered ([] ++ [Collection.units, .colors, .values].map Step.load)) f ↔ _ :=
      latest_loads
    simp only [List.nil_append, once] at left right
    exact left.trans right.symm

/-- A function under the name of a library function and in another category, registered before the
library is loaded; and all libraries in another order with one of them twice. -/
theorem history_shows_latest_mix :
    (∀ r : Registry Float,
      Reaches (registered [.register (.standalone { Library.dataUriSignature with name := "mix" } fun _ =>
        .error (.notImplemented "mix")), .load .colors]) r →
          Alike r (empty.insertAll Library.colors)) ∧
      Alike (run [.load .colors, .load .values, .load .colors, .load .units])
        (standardRegistry : Registry Float) := by
  obtain ⟨reaches, _, overwritten, _, complete⟩ := history_shows_latest (α := Float)
  constructor
  · intro r reached
    have split : ∀ f : Builtin Float,
        registered [.register f, .load .colors] = [] ++ f :: Library.colors := by
      simp [registered, Step.builtins, Collection.builtins]
    apply overwritten _ [] _ Library.colors (split _) _ r _ reached (reaches_insertAll _)
    decide +kernel
  · apply complete [.colors, .values, .colors, .units] _ _ (reaches _)
    intro c
    cases c <;> simp

end Registry

end StyleFunctions
