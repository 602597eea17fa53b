import StyleFunctions.Proofs.ListItems.Layout

/-!
Commas or blanks. A text is split at its commas when these part at least two items from each other,
which is not the same as having a comma: commas with nothing on one side stay in the items.
-/

namespace StyleFunctions.ListItems

/-- Whether a comma stands outside of quotations and parentheses. -/
def hasTopComma (text : String) : Bool := meets isComma .start text.toList

/-- The items between the commas at top level. -/
def commaItems (text : String) : List String := (items isComma text.toList).map String.ofList

/-- The items between the blanks at top level. -/
def blankItems (text : String) : List String := (items Text.isBlank text.toList).map String.ofList

theorem meets_comma_trim (piece : List Char) :
    meets isComma .start (Text.trim piece) = meets isComma .start piece := by
  obtain ⟨lead, tail, split, leadBlank, tailBlank⟩ := Text.exists_trim piece
  have whole : meets isComma .start (lead ++ Text.trim piece ++ tail) =
      meets isComma .start (Text.trim piece) := by
    rw [meets_append, meets_append, run_blanks leadBlank, meets_comma_blanks _ leadBlank,
      meets_comma_blanks _ tailBlank, Bool.false_or, Bool.or_false]
  rw [← whole, ← split]

theorem exists_mem_kept_iff (piece : List Char) :
    (∃ item ∈ kept piece, meets isComma .start item = true) ↔
      meets isComma .start piece = true := by
  rw [← meets_comma_trim]
  constructor
  · rintro ⟨item, member, inside⟩
    have same : item = Text.trim piece := by simpa using (List.mem_filter.mp member).1
    rwa [same] at inside
  · intro inside
    have present : Text.trim piece ≠ [] := by
      intro empty
      rw [empty] at inside
      cases inside
    exact ⟨Text.trim piece, by simp [kept_item present], inside⟩

theorem mem_items_whole {isSeparator : Char → Bool} (passive : Passive isSeparator)
    {cs item : List Char} (member : item ∈ items isSeparator cs) :
    meets isSeparator .start item = false := by
  obtain ⟨first, parts, layout⟩ := exists_layout passive cs
  rw [← layout.items_eq] at member
  obtain ⟨part, present, rfl⟩ := List.mem_map.mp member
  exact layout.whole part present

/-- Between blanks no comma is lost: those at top level of the text are those of its items. -/
theorem exists_mem_items_iff_of_cut {s : State} {cs : List Char} {pieces : List (List Char)}
    (cut : Cut Text.isBlank s cs pieces) (start : s = .start) :
    (∃ item ∈ items Text.isBlank cs, meets isComma .start item = true) ↔
      meets isComma .start cs = true := by
  induction cut with
  | last none =>
      subst start
      rw [items_of_no_separator none]
      exact exists_mem_kept_iff _
  | next none top separator _ ih =>
      subst start
      rw [meets_append, top, meets, comma_not_blank separator, Bool.and_false, Bool.false_or,
        step_separator blank_passive separator, Bool.or_eq_true, ← exists_mem_kept_iff, ← ih rfl,
        items_append none top separator]
      simp only [List.mem_append, or_and_right, exists_or]

theorem hasTopComma_ofList (cs : List Char) :
    hasTopComma (.ofList cs) = meets isComma .start cs := by
  rw [hasTopComma, String.toList_ofList]

theorem not_hasTopComma_of_mem_commaItems {text item : String} (member : item ∈ commaItems text) :
    hasTopComma item = false := by
  obtain ⟨cs, present, rfl⟩ := List.mem_map.mp member
  rw [hasTopComma_ofList]
  exact mem_items_whole comma_passive present

theorem exists_mem_blankItems_iff (text : String) :
    (∃ item ∈ blankItems text, hasTopComma item = true) ↔ hasTopComma text = true := by
  rw [hasTopComma,
    ← exists_mem_items_iff_of_cut (cut_segments Text.isBlank .start text.toList) rfl]
  constructor
  · rintro ⟨item, member, inside⟩
    obtain ⟨cs, present, rfl⟩ := List.mem_map.mp member
    exact ⟨cs, present, by rwa [hasTopComma_ofList] at inside⟩
  · rintro ⟨cs, present, inside⟩
    exact ⟨.ofList cs, List.mem_map.mpr ⟨cs, present, rfl⟩, by rwa [hasTopComma_ofList]⟩

theorem commaItems_length_of_no_comma {text : String} (none : hasTopComma text = false) :
    (commaItems text).length ≤ 1 := by
  rw [commaItems, List.length_map, items_of_no_separator none]
  exact kept_length text.toList

theorem ofText_of_two {text : String} (two : 2 ≤ (commaItems text).length) :
    ofText text = commaItems text := by
  rw [commaItems, List.length_map] at two
  have more : 1 < (items isComma text.toList).length := two
  rw [ofText, ofChars_eq_items, separatorOf, if_pos more]
  rfl

theorem ofText_of_less {text : String} (less : (commaItems text).length < 2) :
    ofText text = blankItems text := by
  rw [commaItems, List.length_map] at less
  have few : ¬ 1 < (items isComma text.toList).length := by omega
  rw [ofText, ofChars_eq_items, separatorOf, if_neg few]
  rfl

theorem commaItems_ne_blankItems {text : String} (comma : hasTopComma text = true) :
    commaItems text ≠ blankItems text := by
  intro same
  obtain ⟨item, member, inside⟩ := (exists_mem_blankItems_iff text).mpr comma
  rw [← same] at member
  rw [not_hasTopComma_of_mem_commaItems member] at inside
  cases inside

/-- Without a comma at top level a text is split at its blanks. With one it is split at its commas
exactly when at least two items stand between them; otherwise it is split at its blanks, and some
item keeps a comma. -/
theorem ofText_mode (text : String) :
    (hasTopComma text = false → ofText text = blankItems text) ∧
      (hasTopComma text = true →
        (ofText text = commaItems text ↔ 2 ≤ (commaItems text).length) ∧
          (ofText text = blankItems text ↔ (commaItems text).length < 2)) ∧
      ((∃ item ∈ ofText text, hasTopComma item = true) ↔
        hasTopComma text = true ∧ (commaItems text).length < 2) := by
  rcases Nat.lt_or_ge (commaItems text).length 2 with less | two
  · rw [ofText_of_less less, exists_mem_blankItems_iff]
    refine ⟨fun _ => rfl, fun comma => ⟨⟨fun same => ?_, fun two => ?_⟩, ?_⟩, ?_⟩
    · exact absurd same.symm (commaItems_ne_blankItems comma)
    · omega
    · simp [less]
    · simp [less]
  · rw [ofText_of_two two]
    refine ⟨fun none => ?_, fun comma => ⟨?_, ⟨fun same => ?_, fun less => ?_⟩⟩, ?_, ?_⟩
    · have few := commaItems_length_of_no_comma none
      omega
    · simp [two]
    · exact absurd same (commaItems_ne_blankItems comma)
    · omega
    · rintro ⟨item, member, inside⟩
      rw [not_hasTopComma_of_mem_commaItems member] at inside
      cases inside
    · rintro ⟨_, less⟩
      omega

/-- A comma behind the last item does not count: the text is split at its blanks. -/
theorem trailing_comma_not_split :
    hasTopComma "a b," = true ∧ commaItems "a b," = ["a b"] ∧ ofText "a b," = ["a", "b,"] := by
  decide

end StyleFunctions.ListItems
