import StyleFunctions.Proofs.ListItems.Mode

/-!
Splitting an item again. Every item begins where the scan of its text stands outside of quotations and
parentheses, so it has no more commas to be split at than the text has.
-/

namespace StyleFunctions.ListItems

open Text (Blanks)

variable {isSeparator : Char → Bool}

theorem kept_eq_nil_iff {piece : List Char} : kept piece = [] ↔ Blanks piece := by
  constructor
  · intro nothing
    obtain ⟨lead, tail, split, leadBlank, tailBlank⟩ := Text.exists_trim piece
    have empty : Text.trim piece = [] := by simpa [kept] using nothing
    rw [split, empty, List.append_nil]
    exact Text.blanks_append leadBlank tailBlank
  · exact kept_blanks

/-- A piece leaves an item behind when a part of it does. -/
theorem kept_length_mono {part piece : List Char} (inside : part ⊆ piece) :
    (kept part).length ≤ (kept piece).length := by
  by_cases nothing : kept piece = []
  · have blank : Blanks part := fun c member => kept_eq_nil_iff.mp nothing c (inside member)
    rw [kept_blanks blank]
    exact Nat.zero_le _
  · exact Nat.le_trans (kept_length part) (List.length_pos_iff.mpr nothing)

theorem items_eq_flatMap (cs : List Char) :
    items isSeparator cs = (segments isSeparator .start cs).flatMap kept := by
  rw [items]
  induction segments isSeparator .start cs with
  | nil => rfl
  | cons piece pieces ih =>
      rw [List.map_cons, ← List.singleton_append, List.filter_append, ih]
      rfl

theorem exists_segments (isSeparator : Char → Bool) (s : State) (cs : List Char) :
    ∃ piece pieces, segments isSeparator s cs = piece :: pieces := by
  generalize same : segments isSeparator s cs = pieces
  cases segments_eq_iff.mp same with
  | last => exact ⟨_, _, rfl⟩
  | next => exact ⟨_, _, rfl⟩

/-- A text without separators grows together with the first piece of what follows it. -/
theorem exists_segments_append {s : State} {cs : List Char}
    (none : meets isSeparator s cs = false) (ds : List Char) :
    ∃ piece pieces, segments isSeparator (s.run cs) ds = piece :: pieces ∧
      segments isSeparator s (cs ++ ds) = (cs ++ piece) :: pieces := by
  induction cs generalizing s with
  | nil =>
      obtain ⟨piece, pieces, split⟩ := exists_segments isSeparator s ds
      exact ⟨piece, pieces, split, split⟩
  | cons c cs ih =>
      obtain ⟨inside, none⟩ := Bool.or_eq_false_iff.mp none
      obtain ⟨piece, pieces, later, grown⟩ := ih none
      refine ⟨piece, pieces, later, ?_⟩
      rw [List.cons_append, segments, if_neg (by simp [inside]), grown]
      rfl

theorem items_length_le_append_of_cut {s : State} {cs : List Char} {pieces : List (List Char)}
    (cut : Cut isSeparator s cs pieces) (start : s = .start) (ds : List Char) :
    (items isSeparator cs).length ≤ (items isSeparator (cs ++ ds)).length := by
  induction cut with
  | last none =>
      subst start
      obtain ⟨piece, pieces, _, grown⟩ := exists_segments_append none ds
      rw [items_of_no_separator none, items_eq_flatMap, grown, List.flatMap_cons, List.length_append]
      exact Nat.le_trans (kept_length_mono (List.subset_append_left ..)) (Nat.le_add_right ..)
  | next none top separator _ ih =>
      subst start
      rw [List.append_assoc, List.cons_append, items_append none top separator,
        items_append none top separator, List.length_append, List.length_append]
      exact Nat.add_le_add_left (ih rfl) _

theorem items_length_le_prepend_of_cut {s : State} {front : List Char} {pieces : List (List Char)}
    (cut : Cut isSeparator s front pieces) (start : s = .start) (top : s.run front = .start)
    (passive : Passive isSeparator) (cs : List Char) :
    (items isSeparator cs).length ≤ (items isSeparator (front ++ cs)).length := by
  induction cut with
  | last none =>
      subst start
      obtain ⟨piece, pieces, alone, grown⟩ := exists_segments_append none cs
      rw [top] at alone
      rw [items_eq_flatMap, alone, items_eq_flatMap, grown, List.flatMap_cons, List.flatMap_cons,
        List.length_append, List.length_append]
      exact Nat.add_le_add_right (kept_length_mono (List.subset_append_right ..)) _
  | next none ended separator _ ih =>
      subst start
      rw [run_past passive ended separator] at top
      rw [List.append_assoc, List.cons_append, items_append none ended separator, List.length_append]
      exact Nat.le_trans (ih rfl top) (Nat.le_add_left ..)

/-- A part of a text that begins outside of quotations and parentheses has no more items than the text,
wherever it ends. -/
theorem items_length_le (passive : Passive isSeparator) {front : List Char}
    (top : State.start.run front = .start) (part back : List Char) :
    (items isSeparator part).length ≤ (items isSeparator (front ++ part ++ back)).length := by
  rw [List.append_assoc]
  calc
    (items isSeparator part).length ≤ (items isSeparator (part ++ back)).length :=
      items_length_le_append_of_cut (cut_segments isSeparator .start part) rfl back
    _ ≤ (items isSeparator (front ++ (part ++ back))).length :=
      items_length_le_prepend_of_cut (cut_segments isSeparator .start front) rfl top passive _

theorem mem_kept {piece item : List Char} (member : item ∈ kept piece) :
    item = Text.trim piece ∧ item ≠ [] := by
  simpa [kept] using member

theorem exists_front_of_cut (passive : Passive isSeparator) {s : State} {cs item : List Char}
    {pieces : List (List Char)} (cut : Cut isSeparator s cs pieces) (start : s = .start)
    (member : item ∈ items isSeparator cs) :
    ∃ front back, cs = front ++ item ++ back ∧ State.start.run front = .start := by
  induction cut with
  | @last s piece none =>
      subst start
      rw [items_of_no_separator none] at member
      obtain ⟨rfl, _⟩ := mem_kept member
      obtain ⟨lead, tail, split, leadBlank, _⟩ := Text.exists_trim piece
      exact ⟨lead, tail, split, run_blanks leadBlank⟩
  | @next s piece rest c pieces none top separator _ ih =>
      subst start
      rw [items_append none top separator] at member
      rcases List.mem_append.mp member with here | later
      · obtain ⟨rfl, _⟩ := mem_kept here
        obtain ⟨lead, tail, split, leadBlank, _⟩ := Text.exists_trim piece
        refine ⟨lead, tail ++ c :: rest, ?_, run_blanks leadBlank⟩
        rw [← List.append_assoc, ← split]
      · obtain ⟨front, back, rfl, before⟩ := ih rfl later
        refine ⟨piece ++ c :: front, back, ?_, (run_past passive top separator front).trans before⟩
        simp only [List.append_assoc, List.cons_append]

/-- Every item begins outside of quotations and parentheses. -/
theorem exists_front (passive : Passive isSeparator) {cs item : List Char}
    (member : item ∈ items isSeparator cs) :
    ∃ front back, cs = front ++ item ++ back ∧ State.start.run front = .start :=
  exists_front_of_cut passive (cut_segments isSeparator .start cs) rfl member

/-- An item is its own only item. -/
theorem items_of_mem_items (passive : Passive isSeparator) {cs item : List Char}
    (member : item ∈ items isSeparator cs) : items isSeparator item = [item] := by
  rw [items_eq_flatMap] at member
  obtain ⟨piece, _, inside⟩ := List.mem_flatMap.mp member
  obtain ⟨rfl, present⟩ := mem_kept inside
  rw [← items_eq_flatMap] at member
  have whole : Text.trim (Text.trim piece) = Text.trim piece :=
    Text.trim_eq_self (Text.trimmed_trim piece)
  rw [items_of_no_separator (mem_items_whole passive member), kept_item (by rwa [whole]), whole]

theorem blankItems_of_mem {text item : String} (member : item ∈ blankItems text) :
    blankItems item = [item] := by
  obtain ⟨cs, present, rfl⟩ := List.mem_map.mp member
  rw [blankItems, String.toList_ofList, items_of_mem_items blank_passive present]
  rfl

/-- Commas part no more items in an item between blanks than in the whole text. -/
theorem commaItems_length_of_mem_blankItems {text item : String} (member : item ∈ blankItems text) :
    (commaItems item).length ≤ (commaItems text).length := by
  obtain ⟨cs, present, rfl⟩ := List.mem_map.mp member
  obtain ⟨front, back, split, top⟩ := exists_front blank_passive present
  rw [commaItems, commaItems, List.length_map, List.length_map, String.toList_ofList, split]
  exact items_length_le comma_passive top cs back

/-- An item that was found between blanks is not split again, and one that was found between commas
is split at its blanks. -/
theorem ofText_again (text : String) :
    ((commaItems text).length < 2 →
      ofText text = blankItems text ∧ ∀ item ∈ ofText text, ofText item = [item]) ∧
    (2 ≤ (commaItems text).length →
      ofText text = commaItems text ∧ ∀ item ∈ ofText text, ofText item = blankItems item) := by
  constructor
  · intro less
    refine ⟨ofText_of_less less, fun item member => ?_⟩
    rw [ofText_of_less less] at member
    have few : (commaItems item).length < 2 :=
      Nat.lt_of_le_of_lt (commaItems_length_of_mem_blankItems member) less
    rw [ofText_of_less few, blankItems_of_mem member]
  · intro two
    refine ⟨ofText_of_two two, fun item member => ?_⟩
    rw [ofText_of_two two] at member
    have one : (commaItems item).length ≤ 1 :=
      commaItems_length_of_no_comma (not_hasTopComma_of_mem_commaItems member)
    exact ofText_of_less (Nat.lt_succ_of_le one)

/-- A parenthesis that is not closed, with a comma in it and blanks behind it; items between commas,
one of which has a blank; and a call of a call with a quotation, which is one item of either kind. -/
theorem ofText_again_open :
    (commaItems "a (b,  ").length < 2 ∧ "(b," ∈ ofText "a (b,  " ∧ ofText "(b," = ["(b,"] ∧
      2 ≤ (commaItems "a b, (c, d)").length ∧ "a b" ∈ ofText "a b, (c, d)" ∧
      ofText "a b" = blankItems "a b" ∧
      ofText "u f(g(a, b) \"), (\")" = ["u", "f(g(a, b) \"), (\")"] ∧
      ofText "f(g(a, b) \"), (\")" = ["f(g(a, b) \"), (\")"] := by
  have between : "(b," ∈ ofText "a (b,  " := by decide
  have parted : "a b" ∈ ofText "a b, (c, d)" := by decide
  have less : (commaItems "a (b,  ").length < 2 := by decide
  have two : 2 ≤ (commaItems "a b, (c, d)").length := by decide
  have calls : ofText "u f(g(a, b) \"), (\")" = ["u", "f(g(a, b) \"), (\")"] := by decide
  have single : (commaItems "u f(g(a, b) \"), (\")").length < 2 := by decide
  have again := ((ofText_again _).1 single).2 "f(g(a, b) \"), (\")" (by rw [calls]; simp)
  exact ⟨less, between, ((ofText_again _).1 less).2 _ between, two, parted,
    ((ofText_again _).2 two).2 _ parted, calls, again⟩

end StyleFunctions.ListItems
