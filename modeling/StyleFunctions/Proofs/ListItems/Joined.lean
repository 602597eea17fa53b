import StyleFunctions.Proofs.ListItems.Layout

/-!
Splitting undoes joining: items that a scan reads as a whole come back from a text in which they are
joined by commas or by blanks.
-/

namespace StyleFunctions.ListItems

open Text (Blanks Trimmed)

/-- An item that commas beside it do not change: a scan of it ends where it began and comes to no
comma at top level. -/
structure CommaSafe (item : List Char) : Prop where
  nonempty : item ≠ []
  trimmed : Trimmed item
  closed : State.start.run item = .start
  no_comma : meets isComma .start item = false

/-- An item that blanks beside it do not change either. -/
structure SpaceSafe (item : List Char) : Prop extends CommaSafe item where
  no_blank : meets Text.isBlank .start item = false

/-- A comma with any blanks around it. -/
def CommaGap (gap : List Char) : Prop :=
  ∃ before after, gap = before ++ ',' :: after ∧ Blanks before ∧ Blanks after

/-- At least one blank. -/
def BlankGap (gap : List Char) : Prop := gap ≠ [] ∧ Blanks gap

/-- A text in which the items stand in order, with one gap between each and the next. -/
inductive Joined (Gap : List Char → Prop) : List (List Char) → List Char → Prop where
  | nil : Joined Gap [] []
  | single (item : List Char) : Joined Gap [item] item
  | cons {item gap next rest : List Char} {more : List (List Char)} :
      Gap gap → Joined Gap (next :: more) rest →
        Joined Gap (item :: next :: more) (item ++ gap ++ rest)

theorem kept_padded {lead item tail : List Char} (leadBlank : Blanks lead) (safe : CommaSafe item)
    (tailBlank : Blanks tail) : kept (lead ++ item ++ tail) = [item] := by
  have trim : Text.trim (lead ++ item ++ tail) = item :=
    Text.trim_padded lead item tail leadBlank safe.trimmed tailBlank
  rw [kept_item (by rw [trim]; exact safe.nonempty), trim]

theorem run_padded {lead item tail : List Char} (leadBlank : Blanks lead) (safe : CommaSafe item)
    (tailBlank : Blanks tail) : State.start.run (lead ++ item ++ tail) = .start := by
  rw [State.run_append, State.run_append, run_blanks leadBlank, safe.closed, run_blanks tailBlank]

theorem meets_comma_padded {lead item tail : List Char} (leadBlank : Blanks lead)
    (safe : CommaSafe item) (tailBlank : Blanks tail) :
    meets isComma .start (lead ++ item ++ tail) = false := by
  rw [meets_append, meets_append, run_blanks leadBlank, meets_comma_blanks _ leadBlank,
    safe.no_comma, meets_comma_blanks _ tailBlank]
  rfl

/-- The items between commas are those that were joined, also behind blanks. -/
theorem items_comma_joined {list : List (List Char)} {cs : List Char}
    (joined : Joined CommaGap list cs) (safe : ∀ item ∈ list, CommaSafe item) {lead : List Char}
    (leadBlank : Blanks lead) : items isComma (lead ++ cs) = list := by
  have none : Blanks [] := by simp [Blanks]
  induction joined generalizing lead with
  | nil =>
      rw [items_of_no_separator (meets_comma_blanks _ (Text.blanks_append leadBlank none)),
        kept_blanks (Text.blanks_append leadBlank none)]
  | single item =>
      have here : CommaSafe item := safe item (List.mem_singleton_self item)
      have clear := meets_comma_padded leadBlank here none
      have keep := kept_padded leadBlank here none
      rw [List.append_nil] at clear keep
      rw [items_of_no_separator clear, keep]
  | @cons item gap next rest more comma _ ih =>
      obtain ⟨before, after, rfl, beforeBlank, afterBlank⟩ := comma
      have here : CommaSafe item := safe item (List.mem_cons_self ..)
      have piece : lead ++ (item ++ (before ++ ',' :: after) ++ rest) =
          lead ++ item ++ before ++ ',' :: (after ++ rest) := by
        simp only [List.append_assoc, List.cons_append]
      rw [piece, items_append (meets_comma_padded leadBlank here beforeBlank)
        (run_padded leadBlank here beforeBlank) rfl, kept_padded leadBlank here beforeBlank,
        ih (fun other member => safe other (List.mem_cons_of_mem _ member)) afterBlank]
      rfl

theorem items_blanks_append {blanks : List Char} (blank : Blanks blanks) (cs : List Char) :
    items Text.isBlank (blanks ++ cs) = items Text.isBlank cs := by
  induction blanks with
  | nil => rfl
  | cons c blanks ih =>
      have split : items Text.isBlank ([] ++ c :: (blanks ++ cs)) =
          kept [] ++ items Text.isBlank (blanks ++ cs) :=
        items_append rfl rfl (blank c (List.mem_cons_self ..))
      exact split.trans (ih fun d member => blank d (List.mem_cons_of_mem _ member))

theorem kept_safe {item : List Char} (safe : CommaSafe item) : kept item = [item] := by
  have trim : Text.trim item = item := Text.trim_eq_self safe.trimmed
  rw [kept_item (by rw [trim]; exact safe.nonempty), trim]

/-- The items between blanks are those that were joined. -/
theorem items_blank_joined {list : List (List Char)} {cs : List Char}
    (joined : Joined BlankGap list cs) (safe : ∀ item ∈ list, SpaceSafe item) :
    items Text.isBlank cs = list := by
  induction joined with
  | nil => rfl
  | single item =>
      have here : SpaceSafe item := safe item (List.mem_singleton_self item)
      rw [items_of_no_separator here.no_blank, kept_safe here.toCommaSafe]
  | @cons item gap next rest more blank _ ih =>
      have here : SpaceSafe item := safe item (List.mem_cons_self ..)
      obtain ⟨some, blanks⟩ := blank
      cases gap with
      | nil => exact absurd rfl some
      | cons c gap =>
          have separator : Text.isBlank c = true := blanks c (List.mem_cons_self ..)
          have later : Blanks gap := fun d member => blanks d (List.mem_cons_of_mem _ member)
          rw [List.append_assoc, List.cons_append,
            items_append here.no_blank here.closed separator, kept_safe here.toCommaSafe,
            items_blanks_append later,
            ih fun other member => safe other (List.mem_cons_of_mem _ member)]
          rfl

theorem meets_comma_blank_joined {list : List (List Char)} {cs : List Char}
    (joined : Joined BlankGap list cs) (safe : ∀ item ∈ list, SpaceSafe item) :
    meets isComma .start cs = false := by
  induction joined with
  | nil => rfl
  | single item => exact (safe item (List.mem_singleton_self item)).no_comma
  | @cons item gap next rest more blank _ ih =>
      have here : SpaceSafe item := safe item (List.mem_cons_self ..)
      have later := ih fun other member => safe other (List.mem_cons_of_mem _ member)
      rw [meets_append, meets_append, here.no_comma, here.closed, meets_comma_blanks _ blank.2,
        State.run_append, here.closed, run_blanks blank.2, later]
      rfl

/-- At least two items joined by commas, and any number of items joined by blanks, are the items of
the joined text. -/
theorem ofText_joined (list : List String) (text : String) :
    (2 ≤ list.length → (∀ item ∈ list, CommaSafe item.toList) →
        Joined CommaGap (list.map String.toList) text.toList → ofText text = list) ∧
      ((∀ item ∈ list, SpaceSafe item.toList) →
        Joined BlankGap (list.map String.toList) text.toList → ofText text = list) := by
  have back : (list.map String.toList).map String.ofList = list := by
    simp [List.map_map, Function.comp_def]
  constructor
  · intro two safe joined
    have none : Blanks [] := by simp [Blanks]
    have split : items isComma ([] ++ text.toList) = list.map String.toList :=
      items_comma_joined joined (List.forall_mem_map.mpr safe) none
    rw [List.nil_append] at split
    have more : 1 < (items isComma text.toList).length := by rwa [split, List.length_map]
    rw [ofText, ofChars_eq_items, separatorOf, if_pos more, split, back]
  · intro safe joined
    have whole : ∀ item ∈ list.map String.toList, SpaceSafe item := List.forall_mem_map.mpr safe
    have few : ¬ 1 < (items isComma text.toList).length := by
      rw [items_of_no_separator (meets_comma_blank_joined joined whole)]
      exact Nat.not_lt.mpr (kept_length text.toList)
    rw [ofText, ofChars_eq_items, separatorOf, if_neg few, items_blank_joined joined whole, back]

/-- Nested calls, quotations with separators in them and a closing parenthesis that closes nothing. -/
theorem ofText_joined_calls :
    ofText "rgb(1, 2) ,'a, b' ,  x)" = ["rgb(1, 2)", "'a, b'", "x)"] ∧
      ofText "rgb(1, 2) \t'a, b'" = ["rgb(1, 2)", "'a, b'"] := by
  constructor
  · refine (ofText_joined ["rgb(1, 2)", "'a, b'", "x)"] "rgb(1, 2) ,'a, b' ,  x)").1
      (by decide) ?_ ?_
    · simp only [List.forall_mem_cons, List.not_mem_nil, false_implies, implies_true, and_true]
      refine ⟨⟨?_, ?_, ?_, ?_⟩, ⟨?_, ?_, ?_, ?_⟩, ⟨?_, ?_, ?_, ?_⟩⟩ <;> decide
    · have first : CommaGap " ,".toList := ⟨[' '], [], by decide, by decide, by decide⟩
      have second : CommaGap " ,  ".toList := ⟨[' '], [' ', ' '], by decide, by decide, by decide⟩
      exact .cons first (.cons second (.single _))
  · refine (ofText_joined ["rgb(1, 2)", "'a, b'"] "rgb(1, 2) \t'a, b'").2 ?_ ?_
    · simp only [List.forall_mem_cons, List.not_mem_nil, false_implies, implies_true, and_true]
      refine ⟨⟨⟨?_, ?_, ?_, ?_⟩, ?_⟩, ⟨⟨?_, ?_, ?_, ?_⟩, ?_⟩⟩ <;> decide
    · have gap : BlankGap " \t".toList := ⟨by decide, by decide⟩
      exact .cons gap (.single _)

end StyleFunctions.ListItems
