import Mathlib.Data.List.Nodup
import StyleFunctions.Proofs.Registry.Latest
import StyleFunctions.Registry.Help

/-!
Names, calls and listings. The names are read off the keys of the entries and the listings off the
signatures of the functions; they agree because every function stands under its own name.
-/

namespace StyleFunctions.Registry

variable {α : Type} {f : Builtin α} {r : Registry α}

/-! ### Names in ascending order -/

section Ascending

variable {names names' : List String}

theorem ascending_perm (names : List String) : (ascending names).Perm names := List.mergeSort_perm _ _

theorem mem_ascending {name : String} : name ∈ ascending names ↔ name ∈ names :=
  (ascending_perm names).mem_iff

theorem pairwise_ascending (names : List String) : (ascending names).Pairwise (· ≤ ·) := by
  have sorted : (ascending names).Pairwise fun s t => decide (s ≤ t) = true := by
    apply List.pairwise_mergeSort
    · intro s t u first second
      exact decide_eq_true (String.le_trans (of_decide_eq_true first) (of_decide_eq_true second))
    · intro s t
      simpa using String.le_total s t
  exact sorted.imp of_decide_eq_true

theorem lt_of_le_of_ne {s t : String} (least : s ≤ t) (other : s ≠ t) : s < t :=
  String.not_le.mp fun greatest => other (String.le_antisymm least greatest)

theorem ascending_lt (distinct : names.Nodup) : (ascending names).Pairwise (· < ·) := by
  have once : (ascending names).Nodup := (ascending_perm names).nodup_iff.mpr distinct
  exact ((pairwise_ascending names).and once).imp fun both => lt_of_le_of_ne both.1 both.2

theorem eq_of_perm_ascending (perm : names.Perm names') (first : names.Pairwise (· ≤ ·))
    (second : names'.Pairwise (· ≤ ·)) : names = names' :=
  perm.eq_of_pairwise (fun _ _ _ _ => String.le_antisymm) first second

/-- Sorting forgets the order. -/
theorem ascending_eq (perm : names.Perm names') : ascending names = ascending names' :=
  eq_of_perm_ascending (((ascending_perm names).trans perm).trans (ascending_perm names').symm)
    (pairwise_ascending names) (pairwise_ascending names')

end Ascending

/-! ### Names and calls -/

theorem names_ascending (r : Registry α) : r.names.Pairwise (· < ·) := ascending_lt r.keys_nodup

theorem names_nodup (r : Registry α) : r.names.Nodup := r.names_ascending.nodup

theorem mem_names_iff_mem_keys (r : Registry α) {name : String} : name ∈ r.names ↔ name ∈ r.keys :=
  mem_ascending

theorem contains_iff (r : Registry α) (name : String) : r.contains name = true ↔ name ∈ r.names := by
  rw [mem_names_iff_mem_keys, ← Decidable.not_iff_not, ← find?_eq_none_iff, contains, Bool.not_eq_true,
    Option.isSome_eq_false_iff, Option.isNone_iff_eq_none]

theorem Keyed.mem_names (keyed : r.Keyed) (name : String) :
    name ∈ r.names ↔ ∃ f ∈ r.builtins, f.name = name := by
  rw [mem_names_iff_mem_keys, ← keyed.map_name, List.mem_map]

theorem Reaches.mem_names {fs : List (Builtin α)} (reached : Reaches fs r) (name : String) :
    name ∈ r.names ↔ ∃ f ∈ fs, f.name = name := by
  rw [reached.keyed.mem_names]
  constructor
  · rintro ⟨f, member, same⟩
    exact ⟨f, mem_of_latest (reached.mem_builtins.mp member), same⟩
  · rintro ⟨f, member, rfl⟩
    obtain ⟨g, latest, same⟩ := exists_latest member
    exact ⟨g, reached.mem_builtins.mpr latest, same⟩

theorem Keyed.call_of_mem (keyed : r.Keyed) (member : f ∈ r.builtins) (context : Context α)
    (arguments : List (Token α)) : r.call context f.name arguments = f.call context arguments := by
  rw [call, r.find?_eq_some_iff.mpr (keyed.mem_builtins.mp member)]

theorem call_of_absent (r : Registry α) {name : String} (absent : name ∉ r.names) (context : Context α)
    (arguments : List (Token α)) : r.call context name arguments = .unresolved := by
  have missing : r.find? name = none :=
    r.find?_eq_none_iff.mpr (mt r.mem_names_iff_mem_keys.mpr absent)
  rw [call, missing]

/-! ### Listings -/

/-- The signatures of one category, or of all functions. -/
def selected (r : Registry α) (category : Option String) : List Signature :=
  (r.builtins.map Builtin.signature).filter fun s => category.all fun c => s.category == c

theorem list_perm (r : Registry α) (category : Option String) :
    (r.list category).Perm (r.selected category) :=
  List.mergeSort_perm _ _

theorem Keyed.signatures_nodup (keyed : r.Keyed) (category : Option String) :
    ((r.selected category).map Signature.name).Nodup := by
  have all : ((r.builtins.map Builtin.signature).map Signature.name).Nodup := by
    rw [List.map_map]
    exact keyed.map_name ▸ r.keys_nodup
  exact all.sublist (List.filter_sublist.map _)

theorem Keyed.list_ascending (keyed : r.Keyed) (category : Option String) :
    (r.list category).Pairwise fun s t => s.name < t.name := by
  have sorted : (r.list category).Pairwise fun s t => decide (s.name ≤ t.name) = true := by
    apply List.pairwise_mergeSort
    · intro s t u first second
      exact decide_eq_true (String.le_trans (of_decide_eq_true first) (of_decide_eq_true second))
    · intro s t
      simpa using String.le_total s.name t.name
  have once : ((r.list category).map Signature.name).Nodup :=
    ((r.list_perm category).map Signature.name).nodup_iff.mpr (keyed.signatures_nodup category)
  exact (sorted.and (List.pairwise_map.mp once)).imp fun both =>
    lt_of_le_of_ne (of_decide_eq_true both.1) both.2

/-- Two listings in order of the names are equal when they hold the same signatures. -/
theorem eq_of_perm_listing {left right : List Signature} (perm : left.Perm right)
    (first : left.Pairwise fun s t => s.name < t.name)
    (second : right.Pairwise fun s t => s.name < t.name) : left = right := by
  apply perm.eq_of_pairwise _ first second
  intro s t _ _ less greater
  exact absurd (String.lt_trans less greater) (String.lt_irrefl s.name)

theorem selected_none (r : Registry α) : r.selected none = r.builtins.map Builtin.signature := by
  simp [selected]

theorem Keyed.names_of_list (keyed : r.Keyed) : (r.list none).map Signature.name = r.names := by
  have collected : ((r.list none).map Signature.name).Perm r.keys := by
    rw [← keyed.map_name]
    have signatures := (r.list_perm none).map Signature.name
    rw [selected_none, List.map_map] at signatures
    exact signatures
  apply eq_of_perm_ascending (collected.trans (ascending_perm _).symm) _ (pairwise_ascending _)
  apply List.pairwise_map.mpr
  exact (keyed.list_ascending none).imp fun less => String.not_lt.mp (String.lt_asymm less)

/-- The listing of a category is the part of the whole listing that has it. -/
theorem Keyed.list_some (keyed : r.Keyed) (category : String) :
    r.list (some category) = (r.list none).filter fun s => s.category == category := by
  apply eq_of_perm_listing _ (keyed.list_ascending (some category))
    ((keyed.list_ascending none).filter _)
  have part : r.selected (some category) = (r.selected none).filter fun s => s.category == category := by
    simp [selected]
  exact (part ▸ r.list_perm (some category)).trans ((r.list_perm none).filter _).symm

end StyleFunctions.Registry
