import StyleFunctions.Library.Colors
import StyleFunctions.Proofs.Registry.Alike
import StyleFunctions.Scalar.Double

/-! What help suggests for a name that is not in the registry. -/

namespace StyleFunctions.Registry

open Similarity (Before Ranked Unlike ranked_ranking ranking)

variable {α : Type}

theorem help_unknown (r : Registry α) {query : String} (missing : r.contains query = false) :
    r.help (some query) = .unknown query (r.suggestions query) := by
  have absent : r.find? query = none := by simpa [contains] using missing
  simp only [help, signature?, absent, Option.map_none]

theorem mem_names_insertAll {fs : List (Builtin α)} {name : String} :
    name ∈ (empty.insertAll fs).names ↔ ∃ f ∈ fs, f.name = name :=
  (reaches_insertAll fs).mem_names name

theorem contains_eq {r s : Registry α} (same : ∀ name, name ∈ r.names ↔ name ∈ s.names)
    (name : String) : r.contains name = s.contains name := by
  rw [Bool.eq_iff_iff, contains_iff, contains_iff]
  exact same name

/-- A ranking is the same for every order in which the names are taken from the table. -/
theorem ranking_eq (r : Registry α) (query : String) : ranking query r.keys = ranking query r.names :=
  (ranked_ranking r.keys_nodup).eq_of_mem_iff (ranked_ranking r.names_nodup) fun _ =>
    r.mem_names_iff_mem_keys.symm

/-- The suggestions for an unknown name are the first five in the order of the names that have
something in common with it. In this order a name that begins with the query comes before all that do
not, and a name that contains it before all that do not. Neither the order in which the names are taken
from the table nor the order of their registration makes a difference, and with less than five
suggestions only names that have nothing in common with the query are left out. -/
theorem help_suggests (r : Registry α) {query : String} (missing : r.contains query = false) :
    ∃ order, Ranked query r.names order ∧
      r.help (some query) = .unknown query (order.take 5) ∧
      (∀ s ∈ r.names, ∀ t ∈ order, query.toList <+: s.toList → ¬ query.toList <+: t.toList →
        [s, t].Sublist order) ∧
      (∀ s ∈ r.names, ∀ t ∈ order, query.toList <:+: s.toList → ¬ query.toList <:+: t.toList →
        [s, t].Sublist order) ∧
      (∀ names, names.Perm r.names → ranking query names = order) ∧
      (∀ fs : List (Builtin α), (∀ name, (∃ f ∈ fs, f.name = name) ↔ name ∈ r.names) →
        (empty.insertAll fs).help (some query) = r.help (some query)) ∧
      ((order.take 5).length < 5 →
        ∀ name ∈ r.names, name ∉ order.take 5 ↔ Unlike query name) := by
  have ranked : Ranked query r.names (ranking query r.names) := ranked_ranking r.names_nodup
  have shown : r.suggestions query = (ranking query r.names).take 5 := by
    rw [suggestions, ranking_eq]
  refine ⟨_, ranked, shown ▸ r.help_unknown missing, ?beginnings, ?containing, ?taken, ?registered, ?left⟩
  case beginnings =>
    intro s left t right starts other
    exact ranked.sublist_of_score_lt left right (Similarity.score_lt_of_prefix starts other)
  case containing =>
    intro s left t right inside other
    exact ranked.sublist_of_score_lt left right (Similarity.score_lt_of_infix inside other)
  case taken =>
    intro names perm
    exact (ranked_ranking (perm.nodup_iff.mpr r.names_nodup)).eq_of_mem_iff ranked
      fun name => perm.mem_iff
  case registered =>
    intro fs names
    have same : ∀ name, name ∈ (empty.insertAll fs).names ↔ name ∈ r.names := by
      intro name
      rw [mem_names_insertAll, names]
    rw [help_unknown _ ((contains_eq same query).trans missing), r.help_unknown missing,
      suggestions_eq same]
  case left =>
    intro room name member
    exact ranked.not_mem_take_iff member room

/-- Of the functions on colors one begins with `sat`, and others contain it. -/
theorem help_suggests_sat :
    let r : Registry Float := empty.insertAll Library.colors
    r.contains "sat" = false ∧
      ∃ order, r.help (some "sat") = .unknown "sat" (order.take 5) ∧
        ["saturate", "desaturate"].Sublist order := by
  intro r
  have names (name : String) :
      name ∈ r.names ↔ name ∈ (Library.colors : List (Builtin Float)).map Builtin.name :=
    mem_names_insertAll.trans List.mem_map.symm
  have missing : r.contains "sat" = false := by
    rw [Bool.eq_false_iff, ne_eq, contains_iff, names]
    decide +kernel
  obtain ⟨order, ranked, shown, beginnings, _⟩ := help_suggests r missing
  have left : "saturate" ∈ r.names := (names _).mpr (by decide +kernel)
  have right : "desaturate" ∈ r.names := (names _).mpr (by decide +kernel)
  have scored : 0 < Similarity.score "sat" "desaturate" := by decide +kernel
  have inside : "desaturate" ∈ order := (ranked.mem_iff _).mpr ⟨right, scored⟩
  exact ⟨missing, order, shown, beginnings _ left _ inside (by decide) (by decide)⟩

end StyleFunctions.Registry
