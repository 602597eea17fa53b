import StyleFunctions.Proofs.ListItems.Scan

/-!
What becomes of the characters of a list literal: they stand in the items, in order, or in the gaps
around them, and gaps hold nothing but blanks and separators.
-/

namespace StyleFunctions.ListItems

open Text (Blanks Trimmed)

/-- A first gap followed by items, each with the gap behind it. -/
def weave : List Char → List (List Char × List Char) → List Char
  | first, [] => first
  | first, (item, gap) :: parts => first ++ item ++ weave gap parts

theorem weave_append (front first : List Char) (parts : List (List Char × List Char)) :
    weave (front ++ first) parts = front ++ weave first parts := by
  cases parts with
  | nil => rfl
  | cons part parts => simp only [weave, List.append_assoc]

/-- What may stand in a gap. -/
def inGap (isSeparator : Char → Bool) (c : Char) : Bool := Text.isBlank c || isSeparator c

/-- A text as its items and the gaps around them. A scan from the beginning of the text meets a
separator in every gap between two items, a scan of an item alone meets none. -/
structure Layout (isSeparator : Char → Bool) (cs first : List Char)
    (parts : List (List Char × List Char)) : Prop where
  text : weave first parts = cs
  items_eq : parts.map Prod.fst = items isSeparator cs
  first_gap : ∀ c ∈ first, inGap isSeparator c = true
  gaps : ∀ part ∈ parts, ∀ c ∈ part.2, inGap isSeparator c = true
  nonempty : ∀ part ∈ parts, part.1 ≠ []
  trimmed : ∀ part ∈ parts, Trimmed part.1
  whole : ∀ part ∈ parts, meets isSeparator .start part.1 = false
  parted : ∀ before part after, parts = before ++ part :: after → after ≠ [] →
    meets isSeparator (State.start.run (weave first before ++ part.1)) part.2 = true

variable {isSeparator : Char → Bool}

theorem inGap_blank {c : Char} (blank : Text.isBlank c = true) : inGap isSeparator c = true := by
  rw [inGap, blank, Bool.true_or]

theorem inGap_separator {c : Char} (separator : isSeparator c = true) :
    inGap isSeparator c = true := by
  rw [inGap, separator, Bool.or_true]

theorem gap_append {blanks gap : List Char} {c : Char} (blank : Blanks blanks)
    (separator : isSeparator c = true) (rest : ∀ d ∈ gap, inGap isSeparator d = true) :
    ∀ d ∈ blanks ++ c :: gap, inGap isSeparator d = true := by
  intro d member
  rcases List.mem_append.mp member with member | member
  · exact inGap_blank (blank d member)
  · rcases List.mem_cons.mp member with rfl | member
    · exact inGap_separator separator
    · exact rest d member

/-- The part of a piece that is kept as an item meets no separator when the piece meets none. -/
theorem meets_trim {piece : List Char} (none : meets isSeparator .start piece = false) :
    meets isSeparator .start (Text.trim piece) = false := by
  obtain ⟨lead, tail, split, leadBlank, _⟩ := Text.exists_trim piece
  rw [split, meets_append, meets_append, run_blanks leadBlank] at none
  exact (Bool.or_eq_false_iff.mp (Bool.or_eq_false_iff.mp none).1).2

theorem layout_blanks {cs : List Char} (blank : Blanks cs)
    (none : meets isSeparator .start cs = false) : Layout isSeparator cs cs [] where
  text := rfl
  items_eq := by rw [items_of_no_separator none, kept_blanks blank]; rfl
  first_gap := fun c member => inGap_blank (blank c member)
  gaps := by simp
  nonempty := by simp
  trimmed := by simp
  whole := by simp
  parted := by simp

theorem layout_item {lead item tail : List Char} (leadBlank : Blanks lead) (present : item ≠ [])
    (trimmed : Trimmed item) (tailBlank : Blanks tail)
    (none : meets isSeparator .start (lead ++ item ++ tail) = false) :
    Layout isSeparator (lead ++ item ++ tail) lead [(item, tail)] := by
  have trim : Text.trim (lead ++ item ++ tail) = item :=
    Text.trim_padded lead item tail leadBlank trimmed tailBlank
  have whole : meets isSeparator .start item = false := trim ▸ meets_trim none
  have items_eq : items isSeparator (lead ++ item ++ tail) = [item] := by
    rw [items_of_no_separator none, kept_item (by rwa [trim]), trim]
  refine ⟨rfl, items_eq.symm, fun c member => inGap_blank (leadBlank c member), ?_, ?_, ?_, ?_, ?_⟩
  · simpa using fun c member => inGap_blank (tailBlank c member)
  · simpa using present
  · simpa using trimmed
  · simpa using whole
  · intro before part after split later
    cases before <;> simp_all

/-- A piece of blanks and the separator behind it join the gap that follows. -/
theorem layout_skip (passive : Passive isSeparator) {piece rest first : List Char} {c : Char}
    {parts : List (List Char × List Char)} (blank : Blanks piece)
    (none : meets isSeparator .start piece = false) (separator : isSeparator c = true)
    (layout : Layout isSeparator rest first parts) :
    Layout isSeparator (piece ++ c :: rest) (piece ++ c :: first) parts := by
  have top : State.start.run piece = .start := run_blanks blank
  have front (more : List (List Char × List Char)) :
      weave (piece ++ c :: first) more = piece ++ c :: weave first more := by
    rw [weave_append, ← List.singleton_append, weave_append, List.singleton_append]
  refine { layout with text := ?_, items_eq := ?_, first_gap := ?_, parted := ?_ }
  · rw [front, layout.text]
  · rw [items_append none top separator, kept_blanks blank]
    exact layout.items_eq
  · exact gap_append blank separator layout.first_gap
  · intro before part after split later
    rw [front, List.append_assoc, List.cons_append, run_past passive top separator]
    exact layout.parted before part after split later

/-- A piece with an item puts the item, and behind it a gap, before what follows. -/
theorem layout_cons (passive : Passive isSeparator) {lead item tail rest first : List Char}
    {c : Char} {parts : List (List Char × List Char)} (leadBlank : Blanks lead)
    (present : item ≠ []) (trimmed : Trimmed item) (tailBlank : Blanks tail)
    (none : meets isSeparator .start (lead ++ item ++ tail) = false)
    (top : State.start.run (lead ++ item ++ tail) = .start) (separator : isSeparator c = true)
    (layout : Layout isSeparator rest first parts) :
    Layout isSeparator (lead ++ item ++ tail ++ c :: rest) lead
      ((item, tail ++ c :: first) :: parts) := by
  have trim : Text.trim (lead ++ item ++ tail) = item :=
    Text.trim_padded lead item tail leadBlank trimmed tailBlank
  have front (more : List (List Char × List Char)) :
      weave lead ((item, tail ++ c :: first) :: more) =
        lead ++ item ++ tail ++ c :: weave first more := by
    rw [weave, weave_append, ← List.singleton_append, weave_append]
    simp only [List.append_assoc, List.singleton_append]
  refine ⟨?_, ?_, fun d member => inGap_blank (leadBlank d member), ?_, ?_, ?_, ?_, ?_⟩
  · rw [front, layout.text]
  · rw [items_append none top separator, kept_item (by rwa [trim]), trim, ← layout.items_eq]
    rfl
  · exact List.forall_mem_cons.mpr ⟨gap_append tailBlank separator layout.first_gap, layout.gaps⟩
  · exact List.forall_mem_cons.mpr ⟨present, layout.nonempty⟩
  · exact List.forall_mem_cons.mpr ⟨trimmed, layout.trimmed⟩
  · exact List.forall_mem_cons.mpr ⟨trim ▸ meets_trim none, layout.whole⟩
  · intro before part after split later
    cases before with
    | nil =>
        -- The separator behind the piece stands in this gap, after the blanks of the piece.
        obtain ⟨rfl, rfl⟩ := List.cons.inj split
        have behind : (State.start.run (lead ++ item)).run tail = .start := by
          rw [← State.run_append, top]
        rw [weave, meets_append, behind, meets, separator]
        exact Bool.or_true _
    | cons head before =>
        obtain ⟨rfl, rfl⟩ := List.cons.inj split
        rw [front, List.append_assoc, List.cons_append, run_past passive top separator]
        exact layout.parted before part after rfl later

theorem exists_layout_of_cut (passive : Passive isSeparator) {s : State} {cs : List Char}
    {pieces : List (List Char)} (cut : Cut isSeparator s cs pieces) (start : s = .start) :
    ∃ first parts, Layout isSeparator cs first parts := by
  induction cut with
  | @last s piece none =>
      subst start
      obtain ⟨lead, tail, split, leadBlank, tailBlank⟩ := Text.exists_trim piece
      by_cases empty : Text.trim piece = []
      · have blank : Blanks piece := by
          rw [split, empty, List.append_nil]
          exact Text.blanks_append leadBlank tailBlank
        exact ⟨piece, [], layout_blanks blank none⟩
      · rw [split] at none ⊢
        exact ⟨lead, _, layout_item leadBlank empty (Text.trimmed_trim piece) tailBlank none⟩
  | @next s piece rest c pieces none top separator _ ih =>
      subst start
      obtain ⟨first, parts, layout⟩ := ih rfl
      obtain ⟨lead, tail, split, leadBlank, tailBlank⟩ := Text.exists_trim piece
      by_cases empty : Text.trim piece = []
      · have blank : Blanks piece := by
          rw [split, empty, List.append_nil]
          exact Text.blanks_append leadBlank tailBlank
        exact ⟨_, parts, layout_skip passive blank none separator layout⟩
      · rw [split] at none top ⊢
        exact ⟨lead, _, layout_cons passive leadBlank empty (Text.trimmed_trim piece) tailBlank none
          top separator layout⟩

theorem exists_layout (passive : Passive isSeparator) (cs : List Char) :
    ∃ first parts, Layout isSeparator cs first parts :=
  exists_layout_of_cut passive (cut_segments isSeparator .start cs) rfl

/-- The separators that a text is split at. -/
def separatorOf (cs : List Char) : Char → Bool :=
  if 1 < (items isComma cs).length then isComma else Text.isBlank

theorem separatorOf_passive (cs : List Char) : Passive (separatorOf cs) := by
  unfold separatorOf
  split
  · exact comma_passive
  · exact blank_passive

theorem ofChars_eq_items (cs : List Char) : ofChars cs = items (separatorOf cs) cs := by
  rw [ofChars, separatorOf]
  by_cases more : 1 < (items isComma cs).length
  · simp only [if_pos more]
  · simp only [if_neg more]

/-- Splitting loses, adds and reorders nothing but blanks and the separators that were chosen. -/
theorem ofText_layout (text : String) :
    ∃ first parts, Layout (separatorOf text.toList) text.toList first parts ∧
      ofText text = parts.map fun part => String.ofList part.1 := by
  obtain ⟨first, parts, layout⟩ := exists_layout (separatorOf_passive text.toList) text.toList
  refine ⟨first, parts, layout, ?_⟩
  rw [ofText, ofChars_eq_items, ← layout.items_eq, List.map_map]
  rfl

/-- The commas in calls of calls and in quotations part nothing, nor does a parenthesis in a quotation
open or close anything. Behind a parenthesis too many everything is as before. -/
theorem ofText_layout_calls :
    let text := "f(g(a, b), \")\", c) , '(x, y' , z), u"
    ofText text = ["f(g(a, b), \")\", c)", "'(x, y'", "z)", "u"] ∧
      ∃ first parts, Layout isComma text.toList first parts ∧
        (parts.map fun part => String.ofList part.1) =
          ["f(g(a, b), \")\", c)", "'(x, y'", "z)", "u"] := by
  intro text
  have split : ofText text = ["f(g(a, b), \")\", c)", "'(x, y'", "z)", "u"] := by decide
  have chosen : separatorOf text.toList = isComma := if_pos (by decide)
  obtain ⟨first, parts, layout, items⟩ := ofText_layout text
  rw [chosen] at layout
  exact ⟨split, first, parts, layout, items.symm.trans split⟩

end StyleFunctions.ListItems
