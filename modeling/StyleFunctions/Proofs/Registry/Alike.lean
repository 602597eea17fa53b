import StyleFunctions.Proofs.Registry.Overview
import StyleFunctions.Proofs.Registry.Similarity

/-!
No view tells in which order a registry keeps its entries: what is shown is found by its name or sorted
before it is shown.
-/

namespace StyleFunctions.Registry

open Similarity (ranked_ranking ranking)

variable {α : Type} {r s : Registry α}

/-- Two registries that no view tells apart. -/
structure Alike (r s : Registry α) : Prop where
  find? : ∀ name, r.find? name = s.find? name
  size : r.size = s.size
  names : r.names = s.names
  list : ∀ category, r.list category = s.list category
  help : ∀ name, r.help name = s.help name

theorem find?_eq_of_perm (perm : r.entries.Perm s.entries) (name : String) :
    r.find? name = s.find? name := by
  apply Option.ext
  intro f
  rw [find?_eq_some_iff, find?_eq_some_iff, perm.mem_iff]

theorem overview_eq_of_perm (perm : r.entries.Perm s.entries) : r.overview = s.overview := by
  have categories : r.categories = s.categories := by
    apply ascending_eq
    apply (List.perm_ext_iff_of_nodup (nodup_eraseDups _) (nodup_eraseDups _)).mpr
    intro category
    have listed : (r.builtins.map fun f => f.signature.category).Perm
        (s.builtins.map fun f => f.signature.category) := (perm.map Prod.snd).map _
    rw [List.mem_eraseDups, List.mem_eraseDups, listed.mem_iff]
  have names (category : String) : r.namesIn category = s.namesIn category :=
    ascending_eq ((perm.filter _).map Prod.fst)
  rw [overview_eq, overview_eq, categories]
  simp only [names]

/-- Registries with the same names suggest the same. -/
theorem suggestions_eq (same : ∀ name, name ∈ r.names ↔ name ∈ s.names) (query : String) :
    r.suggestions query = s.suggestions query := by
  have keys (name : String) : name ∈ r.keys ↔ name ∈ s.keys := by
    rw [← mem_names_iff_mem_keys, same, mem_names_iff_mem_keys]
  have order : ranking query r.keys = ranking query s.keys :=
    (ranked_ranking r.keys_nodup).eq_of_mem_iff (ranked_ranking s.keys_nodup) keys
  rw [suggestions, suggestions, order]

theorem Keyed.list_eq_of_perm (keyed : r.Keyed) (perm : r.entries.Perm s.entries)
    (category : Option String) : r.list category = s.list category := by
  have keyed' : s.Keyed := fun entry member => keyed entry (perm.mem_iff.mpr member)
  have selected : (r.selected category).Perm (s.selected category) :=
    ((perm.map Prod.snd).map _).filter _
  exact eq_of_perm_listing (((r.list_perm category).trans selected).trans (s.list_perm category).symm)
    (keyed.list_ascending category) (keyed'.list_ascending category)

theorem Keyed.alike_of_perm (keyed : r.Keyed) (perm : r.entries.Perm s.entries) : Alike r s where
  find? := find?_eq_of_perm perm
  size := perm.length_eq
  names := ascending_eq (perm.map Prod.fst)
  list := keyed.list_eq_of_perm perm
  help name := by
    have names : r.names = s.names := ascending_eq (perm.map Prod.fst)
    cases name with
    | none => rw [help, help, overview_eq_of_perm perm]
    | some name =>
        have suggestions : r.suggestions name = s.suggestions name :=
          suggestions_eq (fun name => by rw [names]) name
        rw [help, help, signature?, signature?, find?_eq_of_perm perm, suggestions]

end StyleFunctions.Registry
