/-! Lists that are read item by item, where one item that cannot be read fails the whole. -/

namespace StyleFunctions

variable {β γ : Type} {read : β → Option γ} {write : γ → β}

/-- Whatever stands in the result was read from some item. -/
theorem exists_of_mapM {xs : List β} {ys : List γ} {y : γ} (all : xs.mapM read = some ys)
    (member : y ∈ ys) : ∃ x ∈ xs, read x = some y := by
  induction xs generalizing ys with
  | nil =>
      rw [List.mapM_nil] at all
      cases all
      cases member
  | cons x xs ih =>
      rw [List.mapM_cons] at all
      obtain ⟨z, first, all⟩ := Option.bind_eq_some_iff.mp all
      obtain ⟨zs, rest, same⟩ := Option.bind_eq_some_iff.mp all
      cases same
      rcases List.mem_cons.mp member with rfl | later
      · exact ⟨x, List.mem_cons_self .., first⟩
      · obtain ⟨w, inside, known⟩ := ih rest later
        exact ⟨w, List.mem_cons_of_mem x inside, known⟩

/-- What is read back item by item is read back as a list. -/
theorem mapM_map_of_inverse {ys : List γ} (back : ∀ y ∈ ys, read (write y) = some y) :
    (ys.map write).mapM read = some ys := by
  induction ys with
  | nil => rfl
  | cons y ys ih =>
      obtain ⟨first, rest⟩ := List.forall_mem_cons.mp back
      rw [List.map_cons, List.mapM_cons, first, ih rest]
      rfl

/-- A list is read item by item where each item is read. -/
theorem mapM_eq_map {xs : List β} {value : β → γ} (all : ∀ x ∈ xs, read x = some (value x)) :
    xs.mapM read = some (xs.map value) := by
  induction xs with
  | nil => rfl
  | cons x xs ih =>
      obtain ⟨first, rest⟩ := List.forall_mem_cons.mp all
      rw [List.mapM_cons, first, ih rest]
      rfl

theorem isSome_mapM_iff {xs : List β} :
    (xs.mapM read).isSome = true ↔ ∀ x ∈ xs, (read x).isSome = true := by
  induction xs with
  | nil => simp
  | cons x xs ih =>
      rw [List.forall_mem_cons, ← ih, List.mapM_cons]
      cases read x <;> cases xs.mapM read <;> simp

theorem length_of_mapM {xs : List β} {ys : List γ} (all : xs.mapM read = some ys) :
    ys.length = xs.length := by
  induction xs generalizing ys with
  | nil =>
      cases all
      rfl
  | cons x xs ih =>
      rw [List.mapM_cons] at all
      obtain ⟨z, _, all⟩ := Option.bind_eq_some_iff.mp all
      obtain ⟨zs, rest, same⟩ := Option.bind_eq_some_iff.mp all
      cases same
      rw [List.length_cons, List.length_cons, ih rest]

end StyleFunctions
