import StyleFunctions.Library.Lists
import StyleFunctions.Proofs.Binary64.Whole

/-!
`extract` and `length` count the same items. Positions are read from doubles, so that they are related
to natural numbers by `Binary64.Denotes`.
-/

namespace StyleFunctions.Library

section

variable {α : Type} [Scalar α]

/-- How a piece of a list literal is read. -/
inductive Reads : String → Token α → Prop where
  | number {text : String} {d : Dimension α} : Dimension.ofText text = .ok d →
      Reads text (.number d)
  | keyword {text : String} {e : LiteralError} :
      (Dimension.ofText text : Except LiteralError (Dimension α)) = .error e →
      Reads text (.string ⟨text, none⟩)

/-- The items of a list by their positions, which count from one. -/
inductive Item (context : Context α) : List (Token α) → Nat → Token α → Prop where
  | piece {t : Text} {n : Nat} {text : String} {item : Token α} :
      (context.splitList t.content)[n]? = some text → Reads text item →
      Item context [.string t] (n + 1) item
  | value {values : List (Token α)} {n : Nat} {item : Token α} :
      (∀ t, values ≠ [.string t]) → values[n]? = some item → Item context values (n + 1) item

variable {context : Context α} {values : List (Token α)}

theorem reads_iff {text : String} {item : Token α} : Reads text item ↔ itemToken text = item := by
  unfold itemToken
  constructor
  · intro reads
    cases reads with
    | number ok => rw [ok]
    | keyword error =>
        rw [error]
        rfl
  · rintro rfl
    cases result : (Dimension.ofText text : Except LiteralError (Dimension α)) with
    | ok d => exact .number result
    | error e => exact .keyword result

theorem listItems_values (other : ∀ t, values ≠ [.string t]) : listItems context values = values := by
  unfold listItems
  split
  case h_1 t => exact absurd rfl (other t)
  case h_2 => rfl

theorem itemCount_eq : itemCount context values = (listItems context values).length := by
  unfold itemCount listItems
  split
  · rw [List.length_map]
  · rfl

theorem item_iff {n : Nat} {item : Token α} :
    Item context values n item ↔
      ∃ m, n = m + 1 ∧ (listItems context values)[m]? = some item := by
  constructor
  · intro known
    cases known with
    | piece present reads =>
        refine ⟨_, rfl, ?_⟩
        rw [listItems, List.getElem?_map, present, ← reads_iff.mp reads]
        rfl
    | value other present =>
        refine ⟨_, rfl, ?_⟩
        rw [listItems_values other, present]
  · rintro ⟨m, rfl, present⟩
    unfold listItems at present
    split at present
    case h_1 t =>
      rw [List.getElem?_map] at present
      obtain ⟨text, piece, read⟩ := Option.map_eq_some_iff.mp present
      exact .piece piece (reads_iff.mpr read)
    case h_2 other => exact .value (fun t same => other t same) present

/-- Every position up to the number of items has one. -/
theorem exists_item_iff {n : Nat} :
    (∃ item, Item context values n item) ↔ 1 ≤ n ∧ n ≤ itemCount context values := by
  rw [itemCount_eq]
  constructor
  · rintro ⟨item, known⟩
    obtain ⟨m, rfl, present⟩ := item_iff.mp known
    obtain ⟨below, _⟩ := List.getElem?_eq_some_iff.mp present
    omega
  · rintro ⟨least, most⟩
    have below : n - 1 < (listItems context values).length := by omega
    refine ⟨_, item_iff.mpr ⟨n - 1, by omega, List.getElem?_eq_getElem below⟩⟩

omit [Scalar α] in
theorem allows_concat (present : values ≠ []) (last : Token α) :
    Arguments.expect "extract" (.atLeast 2) (values ++ [last]) = .ok () := by
  have enough : 2 ≤ (values ++ [last]).length := by
    have := List.length_pos_iff.mpr present
    rw [List.length_append, List.length_singleton]
    omega
  rw [Arguments.expect, Arity.allows, decide_eq_true enough, if_pos rfl]

/-- The index is the last argument, the list is what stands before it. -/
theorem extract_number (present : values ≠ []) (index : Dimension α) :
    extract.call context (values ++ [.number index]) =
      itemAt (listItems context values) index.value := by
  simp only [extract, allows_concat present, List.getLast?_concat, List.dropLast_concat]
  rfl

end

open Binary64 (Denotes)

variable {items : List (Token Float)} {index : Float} {n : Nat}

theorem itemAt_of_denotes (whole : Denotes index (n + 1)) :
    itemAt items index = items[n]?.elim .undefined .token := by
  have position : Scalar.toNat index - 1 = n := by
    rw [show Scalar.toNat index = n + 1 from whole.toNat_eq, Nat.add_sub_cancel]
  unfold itemAt
  rw [position]
  split
  case isFalse => cases items[n]? <;> rfl
  case isTrue outside =>
    have above : items.length ≤ n := by
      rcases Nat.lt_or_ge n items.length with below | above
      · rcases outside with fractional | small | large
        · rw [whole.isIntegral] at fractional
          cases fractional
        · have least := whole.one_le_iff.mpr (Nat.succ_pos n)
          exact absurd small ((Binary64.one_le_iff_not_lt whole.finite).mp least)
        · exact absurd large (whole.not_ofNat_lt below)
      · exact above
    rw [List.getElem?_eq_none above]
    rfl

theorem itemAt_of_not_denotes (other : ∀ n, ¬ Denotes index (n + 1)) :
    itemAt items index = .undefined := by
  unfold itemAt
  split
  case isTrue => rfl
  case isFalse inside =>
    simp only [not_or, Bool.not_eq_false] at inside
    obtain ⟨integral, least, _⟩ := inside
    have finite := ((Binary64.isIntegral_iff index).mp integral).1
    have fromOne := (Binary64.one_le_iff_not_lt finite).mpr least
    obtain ⟨n, whole⟩ := Binary64.exists_denotes integral fromOne
    cases n with
    | zero => exact absurd (whole.one_le_iff.mp fromOne) (by decide)
    | succ n => exact absurd whole (other n)

theorem itemAt_eq_token_iff {item : Token Float} :
    itemAt items index = .token item ↔ ∃ n, Denotes index (n + 1) ∧ items[n]? = some item := by
  constructor
  · intro found
    by_cases known : ∃ n, Denotes index (n + 1)
    · obtain ⟨n, whole⟩ := known
      rw [itemAt_of_denotes whole] at found
      cases present : items[n]? with
      | none =>
          rw [present] at found
          cases found
      | some t =>
          rw [present] at found
          cases found
          exact ⟨n, whole, present⟩
    · rw [itemAt_of_not_denotes (fun n whole => known ⟨n, whole⟩)] at found
      cases found
  · rintro ⟨n, whole, present⟩
    rw [itemAt_of_denotes whole, present]
    rfl

theorem itemAt_undefined (none : ∀ item, itemAt items index ≠ .token item) :
    itemAt items index = .undefined := by
  unfold itemAt at *
  split
  case isTrue => rfl
  case isFalse inside =>
    rw [if_neg inside] at none
    split
    case h_1 item present =>
      rw [present] at none
      exact absurd rfl (none item)
    case h_2 => rfl

end StyleFunctions.Library
