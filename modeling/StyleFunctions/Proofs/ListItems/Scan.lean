import StyleFunctions.Proofs.Text.Trim
import StyleFunctions.Text.ListItems

/-!
The scan of a list literal, and the pieces between its separators as a relation: `segments` computes
the one list of pieces that a text is `Cut` into.
-/

namespace StyleFunctions.ListItems

open Text (Blanks Trimmed)

namespace State

theorem run_append (s : State) (cs ds : List Char) : s.run (cs ++ ds) = (s.run cs).run ds := by
  simp only [run, List.foldl_append]

theorem run_cons (s : State) (c : Char) (cs : List Char) : s.run (c :: cs) = (s.step c).run cs := rfl

theorem atTop_iff {s : State} : s.atTop = true ↔ s = .start := by
  cases s with
  | mk quote depth => simp [atTop, start]

end State

/-- Whether a scan from a state comes to a separator at top level. -/
def meets (isSeparator : Char → Bool) : State → List Char → Bool
  | _, [] => false
  | s, c :: cs => (s.atTop && isSeparator c) || meets isSeparator (s.step c) cs

/-- The separators of a class are none of the characters that a scan looks at. -/
def Passive (isSeparator : Char → Bool) : Prop :=
  ∀ c ∈ ['"', '\'', '(', ')'], isSeparator c = false

theorem comma_passive : Passive isComma := by
  simp only [Passive, List.forall_mem_cons, List.not_mem_nil, false_implies, implies_true]
  decide

theorem blank_passive : Passive Text.isBlank := by
  simp only [Passive, List.forall_mem_cons, List.not_mem_nil, false_implies, implies_true]
  decide

theorem step_separator {isSeparator : Char → Bool} (passive : Passive isSeparator) {c : Char}
    (separator : isSeparator c = true) : State.start.step c = .start := by
  have other : ∀ d ∈ ['"', '\'', '(', ')'], c ≠ d := by
    intro d member same
    rw [same, passive d member] at separator
    cases separator
  simp only [List.mem_cons, List.not_mem_nil, or_false, forall_eq_or_imp, forall_eq] at other
  obtain ⟨double, single, opening, closing⟩ := other
  simp [State.step, State.start, double, single, opening, closing]

theorem run_blanks {cs : List Char} (blank : Blanks cs) : State.start.run cs = .start := by
  induction cs with
  | nil => rfl
  | cons c cs ih =>
      rw [State.run_cons, step_separator blank_passive (blank c (List.mem_cons_self ..))]
      exact ih fun d member => blank d (List.mem_cons_of_mem _ member)

theorem meets_append (isSeparator : Char → Bool) (s : State) (cs ds : List Char) :
    meets isSeparator s (cs ++ ds) =
      (meets isSeparator s cs || meets isSeparator (s.run cs) ds) := by
  induction cs generalizing s with
  | nil => rfl
  | cons c cs ih => simp only [List.cons_append, meets, ih, State.run_cons, Bool.or_assoc]

/-- A scan meets a separator exactly when the text splits at one outside of quotations and
parentheses. -/
theorem meets_iff {isSeparator : Char → Bool} {s : State} {cs : List Char} :
    meets isSeparator s cs = true ↔
      ∃ front c back, cs = front ++ c :: back ∧ isSeparator c = true ∧
        (s.run front).atTop = true := by
  induction cs generalizing s with
  | nil => simp [meets]
  | cons d cs ih =>
      rw [meets, Bool.or_eq_true, Bool.and_eq_true, ih]
      constructor
      · rintro (⟨top, separator⟩ | ⟨front, c, back, rfl, separator, top⟩)
        · exact ⟨[], d, cs, rfl, separator, top⟩
        · exact ⟨d :: front, c, back, rfl, separator, top⟩
      · rintro ⟨front, c, back, split, separator, top⟩
        cases front with
        | nil =>
            obtain ⟨rfl, rfl⟩ := List.cons.inj split
            exact .inl ⟨top, separator⟩
        | cons e front =>
            obtain ⟨rfl, rfl⟩ := List.cons.inj split
            exact .inr ⟨front, c, back, rfl, separator, top⟩

theorem meets_of_none {isSeparator : Char → Bool} {cs : List Char} (s : State)
    (none : ∀ c ∈ cs, isSeparator c = false) : meets isSeparator s cs = false := by
  induction cs generalizing s with
  | nil => rfl
  | cons c cs ih =>
      rw [meets, none c (List.mem_cons_self ..), Bool.and_false, Bool.false_or]
      exact ih _ fun d member => none d (List.mem_cons_of_mem _ member)

theorem comma_not_blank {c : Char} (blank : Text.isBlank c = true) : isComma c = false := by
  rw [isComma, beq_eq_false_iff_ne]
  rintro rfl
  exact absurd blank (by decide)

theorem meets_comma_blanks {cs : List Char} (s : State) (blank : Blanks cs) :
    meets isComma s cs = false :=
  meets_of_none s fun c member => comma_not_blank (blank c member)

/-- The pieces of a text: no piece meets a separator, and between two of them stands one separator at
top level. -/
inductive Cut (isSeparator : Char → Bool) : State → List Char → List (List Char) → Prop where
  | last {s : State} {piece : List Char} :
      meets isSeparator s piece = false → Cut isSeparator s piece [piece]
  | next {s : State} {piece rest : List Char} {c : Char} {pieces : List (List Char)} :
      meets isSeparator s piece = false → s.run piece = .start → isSeparator c = true →
        Cut isSeparator .start rest pieces →
          Cut isSeparator s (piece ++ c :: rest) (piece :: pieces)

theorem cut_cons {isSeparator : Char → Bool} {s : State} {c : Char} {cs : List Char}
    {pieces : List (List Char)} (inside : (s.atTop && isSeparator c) = false)
    (cut : Cut isSeparator (s.step c) cs pieces) :
    Cut isSeparator s (c :: cs) (consFirst c pieces) := by
  cases cut with
  | last none =>
      refine .last ?_
      rw [meets, inside, none, Bool.or_false]
  | @next _ piece rest d pieces none top separator cut =>
      change Cut isSeparator s ((c :: piece) ++ d :: rest) ((c :: piece) :: pieces)
      refine .next ?_ top separator cut
      rw [meets, inside, none, Bool.or_false]

theorem cut_segments (isSeparator : Char → Bool) (s : State) (cs : List Char) :
    Cut isSeparator s cs (segments isSeparator s cs) := by
  induction cs generalizing s with
  | nil => exact .last rfl
  | cons c cs ih =>
      rw [segments]
      split
      case isTrue here =>
        obtain ⟨top, separator⟩ := Bool.and_eq_true_iff.mp here
        have start : s = .start := State.atTop_iff.mp top
        subst start
        rw [← List.nil_append (c :: cs)]
        exact .next rfl rfl separator (ih .start)
      case isFalse inside =>
        exact cut_cons (Bool.eq_false_iff.mpr inside) (ih (s.step c))

theorem segments_append {isSeparator : Char → Bool} {s : State} {piece rest : List Char}
    {c : Char} (none : meets isSeparator s piece = false) (top : s.run piece = .start)
    (separator : isSeparator c = true) :
    segments isSeparator s (piece ++ c :: rest) =
      piece :: segments isSeparator .start rest := by
  induction piece generalizing s with
  | nil =>
      have start : s = .start := top
      subst start
      rw [List.nil_append, segments, separator]
      rfl
  | cons d piece ih =>
      obtain ⟨inside, none⟩ := Bool.or_eq_false_iff.mp none
      rw [List.cons_append, segments, if_neg (by simp [inside]), ih none top]
      rfl

theorem segments_eq_singleton {isSeparator : Char → Bool} {s : State} {cs : List Char}
    (none : meets isSeparator s cs = false) : segments isSeparator s cs = [cs] := by
  induction cs generalizing s with
  | nil => rfl
  | cons c cs ih =>
      obtain ⟨inside, none⟩ := Bool.or_eq_false_iff.mp none
      rw [segments, if_neg (by simp [inside]), ih none]
      rfl

/-- There is one way to cut a text. -/
theorem segments_eq_iff {isSeparator : Char → Bool} {s : State} {cs : List Char}
    {pieces : List (List Char)} :
    segments isSeparator s cs = pieces ↔ Cut isSeparator s cs pieces := by
  constructor
  · rintro rfl
    exact cut_segments isSeparator s cs
  · intro cut
    induction cut with
    | last none => exact segments_eq_singleton none
    | next none top separator _ ih => rw [segments_append none top separator, ih]

theorem run_past {isSeparator : Char → Bool} (passive : Passive isSeparator) {piece : List Char}
    {c : Char} (top : State.start.run piece = .start) (separator : isSeparator c = true)
    (rest : List Char) : State.start.run (piece ++ c :: rest) = State.start.run rest := by
  rw [State.run_append, top, State.run_cons, step_separator passive separator]

/-- The item that a piece leaves behind, if any. -/
def kept (piece : List Char) : List (List Char) :=
  [Text.trim piece].filter fun item => !item.isEmpty

theorem kept_blanks {piece : List Char} (blank : Blanks piece) : kept piece = [] := by
  simp [kept, Text.trim_blanks blank]

theorem kept_item {piece : List Char} (present : Text.trim piece ≠ []) :
    kept piece = [Text.trim piece] := by
  simp [kept, present]

theorem kept_length (piece : List Char) : (kept piece).length ≤ 1 :=
  List.length_filter_le _ [Text.trim piece]

theorem items_append {isSeparator : Char → Bool} {piece rest : List Char} {c : Char}
    (none : meets isSeparator .start piece = false) (top : State.start.run piece = .start)
    (separator : isSeparator c = true) :
    items isSeparator (piece ++ c :: rest) = kept piece ++ items isSeparator rest := by
  rw [items, segments_append none top separator, List.map_cons, ← List.singleton_append,
    List.filter_append]
  rfl

theorem items_of_no_separator {isSeparator : Char → Bool} {cs : List Char}
    (none : meets isSeparator .start cs = false) : items isSeparator cs = kept cs := by
  rw [items, segments_eq_singleton none]
  rfl

end StyleFunctions.ListItems
