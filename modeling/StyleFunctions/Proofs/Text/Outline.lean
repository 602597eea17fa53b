import StyleFunctions.Proofs.Text.Search

/-!
A template and its placeholders. A template has one outline: the texts between its placeholders, and
the placeholders with their letters. To fill the template is to put the values into the outline, by
number, so that neither the order of the work nor what is put in can make a difference.
-/

namespace StyleFunctions.Template

open Percent (Encoder)
open Search (Searcher)

/-- A placeholder, by its letter, and the text behind it. -/
structure Slot where
  letter : Char
  behind : List Char
  deriving DecidableEq, Repr

/-- What a value is written as at a placeholder: a capital letter asks for the encoded value. -/
def written (encoder : Encoder) (letter : Char) (value : String) : List Char :=
  if 'A' ≤ letter ∧ letter ≤ 'Z' then (encoder Percent.componentMarks value).toList
  else value.toList

/-- A placeholder without a value stays. -/
def Slot.filled (encoder : Encoder) (slot : Slot) (value : Option String) : List Char :=
  value.elim ['%', slot.letter] (written encoder slot.letter) ++ slot.behind

/-- The text before the first placeholder, and the placeholders. -/
structure Outline where
  lead : List Char
  slots : List Slot
  deriving DecidableEq, Repr

namespace Outline

def text (outline : Outline) : List Char :=
  outline.lead ++ outline.slots.flatMap fun slot => '%' :: slot.letter :: slot.behind

/-- Each placeholder gets the value of the same number. -/
def filled (encoder : Encoder) (outline : Outline) (values : List String) : List Char :=
  outline.lead ++ (outline.slots.mapIdx fun k slot => slot.filled encoder values[k]?).flatten

/-- The outline of a template. It has a placeholder wherever a percent sign stands before one of the
letters, and nowhere else. -/
structure IsOf (outline : Outline) (template : List Char) : Prop where
  text_eq : outline.text = template
  placeholder_iff (front : List Char) (c : Char) (back : List Char) :
    (template = front ++ '%' :: c :: back ∧ c ∈ letters) ↔
      ∃ before slot after, outline.slots = before ++ slot :: after ∧ slot.letter = c ∧
        text ⟨outline.lead, before⟩ = front ∧ text ⟨slot.behind, after⟩ = back

/-- One character more at the beginning. -/
def cons (c : Char) (outline : Outline) : Outline := ⟨c :: outline.lead, outline.slots⟩

/-- One placeholder more at the beginning. -/
def mark (letter : Char) (outline : Outline) : Outline :=
  ⟨[], ⟨letter, outline.lead⟩ :: outline.slots⟩

theorem text_cons (c : Char) (outline : Outline) : (cons c outline).text = c :: outline.text := rfl

theorem text_mark (letter : Char) (outline : Outline) :
    (mark letter outline).text = '%' :: letter :: outline.text := rfl

theorem filled_cons (encoder : Encoder) (c : Char) (outline : Outline) (values : List String) :
    (cons c outline).filled encoder values = c :: outline.filled encoder values := rfl

/-- The first placeholder takes the first value and leaves the others to those behind it. -/
theorem filled_mark (encoder : Encoder) (letter : Char) (outline : Outline) (values : List String) :
    (mark letter outline).filled encoder values =
      values.head?.elim ['%', letter] (written encoder letter) ++
        outline.filled encoder values.tail := by
  simp [mark, filled, Slot.filled, List.mapIdx_cons, List.head?_eq_getElem?]

end Outline

/-- Cuts a template at its placeholders. -/
def outline : List Char → Outline
  | '%' :: c :: cs =>
    if isPlaceholder c then (outline cs).mark c else (outline (c :: cs)).cons '%'
  | c :: cs => (outline cs).cons c
  | [] => ⟨[], []⟩

theorem ne_percent {c : Char} (letter : c ∈ letters) : c ≠ '%' := by
  rintro rfl
  exact absurd letter (by decide)

/-- What takes the place of a placeholder, and the values that are left for the next ones. -/
theorem substitute_run (encoder : Encoder) (letter : Char) (values : List String) :
    (substitute encoder ['%', letter]).run values =
      (values.head?.elim ['%', letter] (written encoder letter), values.tail) := by
  have range : endsInCapital ['%', letter] = decide ('A' ≤ letter ∧ letter ≤ 'Z') := rfl
  cases values with
  | nil => rfl
  | cons value values =>
      change (if endsInCapital ['%', letter] then _ else _) = _
      rw [range]
      by_cases capital : 'A' ≤ letter ∧ letter ≤ 'Z' <;> simp [written, capital]

variable {o : Outline} {cs : List Char}

/-- A character that begins no placeholder goes before the text in front of the first one. -/
theorem isOf_cons {d : Char} (none : ∀ c back, cs = c :: back → d = '%' → c ∉ letters)
    (known : o.IsOf cs) : (o.cons d).IsOf (d :: cs) where
  text_eq := by rw [Outline.text_cons, known.text_eq]
  placeholder_iff front c back := by
    constructor
    · rintro ⟨split, letter⟩
      cases front with
      | nil =>
          obtain ⟨sign, rest⟩ := List.cons.inj split
          exact absurd letter (none c back rest sign)
      | cons e front =>
          obtain ⟨rfl, rest⟩ := List.cons.inj split
          obtain ⟨before, slot, after, slots, same, rfl, right⟩ :=
            (known.placeholder_iff front c back).mp ⟨rest, letter⟩
          exact ⟨before, slot, after, slots, same, rfl, right⟩
    · rintro ⟨before, slot, after, slots, same, rfl, right⟩
      obtain ⟨rest, letter⟩ :=
        (known.placeholder_iff _ c back).mpr ⟨before, slot, after, slots, same, rfl, right⟩
      exact ⟨congrArg (d :: ·) rest, letter⟩

/-- A placeholder begins an outline of its own. -/
theorem isOf_mark {l : Char} (letter : l ∈ letters) (known : o.IsOf cs) :
    (o.mark l).IsOf ('%' :: l :: cs) where
  text_eq := by rw [Outline.text_mark, known.text_eq]
  placeholder_iff front c back := by
    constructor
    · rintro ⟨split, other⟩
      match front with
      | [] =>
          obtain ⟨rfl, rest⟩ := List.cons.inj (List.cons.inj split).2
          exact ⟨[], ⟨l, o.lead⟩, o.slots, rfl, rfl, rfl, known.text_eq.trans rest⟩
      | [_] =>
          -- The letter of a placeholder cannot be the sign of the next one.
          obtain ⟨rfl, _⟩ := List.cons.inj (List.cons.inj split).2
          exact absurd rfl (ne_percent letter)
      | sign :: first :: front =>
          simp only [List.cons_append, List.cons.injEq] at split
          obtain ⟨rfl, rfl, rest⟩ := split
          obtain ⟨before, slot, after, slots, same, rfl, right⟩ :=
            (known.placeholder_iff front c back).mp ⟨rest, other⟩
          exact ⟨⟨l, o.lead⟩ :: before, slot, after, congrArg _ slots, same, rfl, right⟩
    · rintro ⟨before, slot, after, slots, same, rfl, right⟩
      cases before with
      | nil =>
          obtain ⟨rfl, rfl⟩ := List.cons.inj slots
          subst same right
          exact ⟨congrArg ('%' :: l :: ·) known.text_eq.symm, letter⟩
      | cons first before =>
          obtain ⟨rfl, later⟩ := List.cons.inj slots
          obtain ⟨rest, other⟩ :=
            (known.placeholder_iff _ c back).mpr ⟨before, slot, after, later, same, rfl, right⟩
          exact ⟨congrArg ('%' :: l :: ·) rest, other⟩

theorem isOf_nil : Outline.IsOf ⟨[], []⟩ [] where
  text_eq := rfl
  placeholder_iff front c back := by
    constructor
    · rintro ⟨split, _⟩
      cases front <;> cases split
    · rintro ⟨before, slot, after, slots, _⟩
      cases before <;> cases slots

/-- Every template has an outline. -/
theorem isOf_outline (template : List Char) : (outline template).IsOf template := by
  fun_induction outline template with
  | case1 c cs letter ih => exact isOf_mark (isPlaceholder_iff.mp letter) ih
  | case2 c cs other ih =>
      refine isOf_cons ?_ ih
      rintro _ _ rest _ letter
      obtain ⟨rfl, _⟩ := List.cons.inj rest
      exact other (isPlaceholder_iff.mpr letter)
  | case3 c cs alone ih =>
      refine isOf_cons ?_ ih
      rintro d back rest sign _
      exact alone d back sign rest
  | case4 => exact isOf_nil

/-- Replacing from left to right puts the values into the outline. -/
theorem replacePlaceholders_eq (encoder : Encoder) (template : List Char) (values : List String) :
    ((replacePlaceholders (substitute encoder) template).run values).1 =
      (outline template).filled encoder values := by
  fun_induction outline template generalizing values with
  | case1 c cs letter ih =>
      rw [Outline.filled_mark, ← ih, replacePlaceholders, if_pos letter]
      change ((substitute encoder ['%', c]).run values).1 ++
        ((replacePlaceholders (substitute encoder) cs).run
          ((substitute encoder ['%', c]).run values).2).1 = _
      rw [substitute_run]
  | case2 c cs other ih =>
      rw [Outline.filled_cons, ← ih, replacePlaceholders, if_neg other]
      rfl
  | case3 c cs alone ih =>
      rw [Outline.filled_cons, ← ih, replacePlaceholders]
      · rfl
      · exact alone
  | case4 => rfl

/-- However a searcher works, it puts the values into the outline. -/
theorem fill_eq {searcher : Searcher} (finds : searcher.Finds IsPlaceholder) (encoder : Encoder)
    (template : List Char) (values : List String) :
    fill searcher encoder template values = (outline template).filled encoder values := by
  rw [fill, replaceAll_eq finds, replacePlaceholders_eq]

/-- Every percent sign begins a placeholder. -/
def PlaceholdersOnly (template : List Char) : Prop :=
  ∀ front back, template = front ++ '%' :: back → ∃ c rest, back = c :: rest ∧ c ∈ letters

theorem placeholdersOnly_nil : PlaceholdersOnly [] := by
  intro front back split
  cases front <;> cases split

theorem placeholdersOnly_cons_iff {d : Char} :
    PlaceholdersOnly (d :: cs) ↔
      (d = '%' → ∃ c rest, cs = c :: rest ∧ c ∈ letters) ∧ PlaceholdersOnly cs := by
  constructor
  · intro placed
    refine ⟨?_, fun front back split => placed (d :: front) back (congrArg (d :: ·) split)⟩
    rintro rfl
    exact placed [] cs rfl
  · rintro ⟨first, placed⟩ front back split
    cases front with
    | nil =>
        obtain ⟨sign, rfl⟩ := List.cons.inj split
        exact first sign
    | cons e front => exact placed front back (List.cons.inj split).2

theorem placeholdersOnly_mark_iff {c : Char} (letter : c ∈ letters) :
    PlaceholdersOnly ('%' :: c :: cs) ↔ PlaceholdersOnly cs := by
  simp [placeholdersOnly_cons_iff, letter, ne_percent letter]

/-- The percent signs of such a template are those of its placeholders. -/
theorem placeholdersOnly_iff (template : List Char) :
    PlaceholdersOnly template ↔
      '%' ∉ (outline template).lead ∧ ∀ slot ∈ (outline template).slots, '%' ∉ slot.behind := by
  fun_induction outline template with
  | case1 c cs letter ih =>
      rw [placeholdersOnly_mark_iff (isPlaceholder_iff.mp letter), ih]
      simp [Outline.mark]
  | case2 c cs unlisted ih =>
      have other : c ∉ letters := fun listed => unlisted (isPlaceholder_iff.mpr listed)
      rw [placeholdersOnly_cons_iff]
      simp [Outline.cons, other]
  | case3 c cs alone ih =>
      rw [placeholdersOnly_cons_iff, ih]
      by_cases sign : c = '%'
      · have stop (d : Char) (rest : List Char) : cs ≠ d :: rest := alone d rest sign
        simp [Outline.cons, sign, stop]
      · simp [Outline.cons, sign, Ne.symm sign]
  | case4 => simp [placeholdersOnly_nil]

instance (template : List Char) : Decidable (PlaceholdersOnly template) :=
  decidable_of_iff _ (placeholdersOnly_iff template).symm

end StyleFunctions.Template
