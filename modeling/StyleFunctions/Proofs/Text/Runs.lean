import Mathlib.Data.Nat.Init
import StyleFunctions.Proofs.Text.Outline
import StyleFunctions.Proofs.Text.Percent

/-!
Runs of percent signs. Collapsing halves every run of a text and changes nothing else, so it changes
exactly the texts in which two percent signs stand side by side.
-/

namespace StyleFunctions.Template

open Percent (Encoder)

def signs (n : Nat) : List Char := List.replicate n '%'

/-- A character that is no percent sign, and how many percent signs stand behind it. -/
@[ext]
structure Stretch where
  head : Char
  count : Nat
  head_ne : head ≠ '%'

namespace Stretch

def text (stretch : Stretch) : List Char := stretch.head :: signs stretch.count

/-- Half as many percent signs, rounded up. -/
def halved (stretch : Stretch) : Stretch := { stretch with count := (stretch.count + 1) / 2 }

end Stretch

/-- A text by its runs of percent signs: the one at the beginning, and one behind each other character.
A run may be empty, so every text has its runs in one way only. -/
structure Runs where
  lead : Nat
  stretches : List Stretch

namespace Runs

def text (runs : Runs) : List Char := signs runs.lead ++ runs.stretches.flatMap Stretch.text

/-- Every run half as long, rounded up. -/
def halved (runs : Runs) : Runs := ⟨(runs.lead + 1) / 2, runs.stretches.map Stretch.halved⟩

end Runs

theorem signs_succ (n : Nat) (cs : List Char) : signs (n + 1) ++ cs = '%' :: (signs n ++ cs) := by
  rw [signs, List.replicate_succ, List.cons_append, signs]

theorem stretches_cons (stretch : Stretch) (stretches : List Stretch) :
    (stretch :: stretches).flatMap Stretch.text =
      stretch.head :: (signs stretch.count ++ stretches.flatMap Stretch.text) := rfl

theorem head_stretches (stretches : List Stretch) :
    (stretches.flatMap Stretch.text).head? ≠ some '%' := by
  cases stretches with
  | nil => simp
  | cons stretch stretches =>
      rw [stretches_cons]
      intro same
      exact stretch.head_ne (Option.some.inj same)

/-! ### The runs of a text -/

theorem exists_runs (cs : List Char) : ∃ runs : Runs, runs.text = cs := by
  induction cs with
  | nil => exact ⟨⟨0, []⟩, rfl⟩
  | cons c cs ih =>
      obtain ⟨runs, rfl⟩ := ih
      by_cases sign : c = '%'
      · subst sign
        exact ⟨⟨runs.lead + 1, runs.stretches⟩, signs_succ runs.lead _⟩
      · exact ⟨⟨0, ⟨c, runs.lead, sign⟩ :: runs.stretches⟩, rfl⟩

theorem signs_append_inj {m n : Nat} {cs ds : List Char} (left : cs.head? ≠ some '%')
    (right : ds.head? ≠ some '%') (same : signs m ++ cs = signs n ++ ds) : m = n ∧ cs = ds := by
  induction m generalizing n with
  | zero =>
      cases n with
      | zero => exact ⟨rfl, same⟩
      | succ n =>
          rw [signs_succ] at same
          exact absurd (congrArg List.head? same) left
  | succ m ih =>
      rw [signs_succ] at same
      cases n with
      | zero => exact absurd (congrArg List.head? same).symm right
      | succ n =>
          rw [signs_succ] at same
          obtain ⟨rfl, rest⟩ := ih (List.cons.inj same).2
          exact ⟨rfl, rest⟩

theorem stretches_inj {stretches others : List Stretch}
    (same : stretches.flatMap Stretch.text = others.flatMap Stretch.text) : stretches = others := by
  induction stretches generalizing others with
  | nil =>
      cases others with
      | nil => rfl
      | cons other others => cases same
  | cons stretch stretches ih =>
      cases others with
      | nil => cases same
      | cons other others =>
          rw [stretches_cons, stretches_cons] at same
          obtain ⟨head, tail⟩ := List.cons.inj same
          obtain ⟨count, rest⟩ :=
            signs_append_inj (head_stretches stretches) (head_stretches others) tail
          rw [ih rest, Stretch.ext head count]

theorem Runs.text_inj {runs others : Runs} (same : runs.text = others.text) : runs = others := by
  cases runs with
  | mk lead stretches =>
      obtain ⟨rfl, rest⟩ :=
        signs_append_inj (head_stretches stretches) (head_stretches others.stretches) same
      rw [stretches_inj rest]

/-! ### Collapsing -/

theorem collapse_cons_of_ne {c : Char} (other : c ≠ '%') (cs : List Char) :
    collapse (c :: cs) = c :: collapse cs := by
  rw [collapse]
  intro _ sign _
  exact other sign

/-- A run in front of something else loses every second sign. -/
theorem collapse_signs (n : Nat) {cs : List Char} (stop : cs.head? ≠ some '%') :
    collapse (signs n ++ cs) = signs ((n + 1) / 2) ++ collapse cs := by
  induction n using Nat.twoStepInduction with
  | zero => rfl
  | one =>
      rw [signs_succ, collapse, signs_succ]
      · rfl
      · rintro rest _ rfl
        exact stop rfl
  | more n ih _ =>
      have half : (n + 2 + 1) / 2 = (n + 1) / 2 + 1 := by omega
      rw [signs_succ, signs_succ, collapse, ih, half, signs_succ]

theorem collapse_stretches (stretches : List Stretch) :
    collapse (stretches.flatMap Stretch.text) =
      (stretches.map Stretch.halved).flatMap Stretch.text := by
  induction stretches with
  | nil => rfl
  | cons stretch stretches ih =>
      rw [stretches_cons, collapse_cons_of_ne stretch.head_ne,
        collapse_signs stretch.count (head_stretches stretches), ih]
      rfl

theorem collapse_text (runs : Runs) : collapse runs.text = runs.halved.text := by
  rw [Runs.text, collapse_signs runs.lead (head_stretches runs.stretches), collapse_stretches]
  rfl

/-! ### Texts without two percent signs side by side -/

/-- Two percent signs stand side by side. -/
def Doubled (cs : List Char) : Prop := ['%', '%'] <:+: cs

variable {c : Char} {cs ds : List Char}

theorem not_doubled_nil : ¬ Doubled [] := by simp [Doubled]

theorem doubled_cons_iff : Doubled (c :: cs) ↔ c = '%' ∧ cs.head? = some '%' ∨ Doubled cs := by
  rw [Doubled, List.infix_cons_iff]
  refine or_congr_left ?_
  cases cs with
  | nil => simp
  | cons d cs => simp [eq_comm]

theorem length_collapse_le (cs : List Char) : (collapse cs).length ≤ cs.length := by
  fun_induction collapse cs with
  | case1 cs ih =>
      simp only [List.length_cons]
      omega
  | case2 c cs _ ih =>
      simp only [List.length_cons]
      omega
  | case3 => exact Nat.le_refl 0

theorem length_collapse_lt (doubled : Doubled cs) : (collapse cs).length < cs.length := by
  fun_induction collapse cs with
  | case1 cs ih =>
      have shorter := length_collapse_le cs
      simp only [List.length_cons]
      omega
  | case2 c cs alone ih =>
      have later : Doubled cs := by
        rcases doubled_cons_iff.mp doubled with ⟨sign, head⟩ | later
        · obtain ⟨rest, split⟩ := List.head?_eq_some_iff.mp head
          exact absurd split (alone rest sign)
        · exact later
      have shorter := ih later
      simp only [List.length_cons]
      omega
  | case3 => exact absurd doubled not_doubled_nil

theorem collapse_eq_self_iff : collapse cs = cs ↔ ¬ Doubled cs := by
  constructor
  · intro same doubled
    have shorter := length_collapse_lt doubled
    rw [same] at shorter
    exact Nat.lt_irrefl _ shorter
  · intro single
    fun_induction collapse cs with
    | case1 cs _ => exact absurd (doubled_cons_iff.mpr (.inl ⟨rfl, rfl⟩)) single
    | case2 c cs _ ih =>
        have rest : ¬ Doubled cs := fun doubled => single (doubled_cons_iff.mpr (.inr doubled))
        rw [ih rest]
    | case3 => rfl

instance (cs : List Char) : Decidable (Doubled cs) :=
  decidable_of_iff (collapse cs ≠ cs) ((not_congr collapse_eq_self_iff).trans Classical.not_not)

/-- Behind every percent sign stands another character. -/
inductive Apart : List Char → Prop where
  | empty : Apart []
  | other {c : Char} {cs : List Char} : c ≠ '%' → Apart cs → Apart (c :: cs)
  | sign {c : Char} {cs : List Char} : c ≠ '%' → Apart cs → Apart ('%' :: c :: cs)

theorem Apart.append (front : Apart cs) (back : Apart ds) : Apart (cs ++ ds) := by
  induction front with
  | empty => exact back
  | other plain _ ih => exact .other plain ih
  | sign plain _ ih => exact .sign plain ih

/-- In an encoded text two digits stand behind every percent sign. -/
theorem apart_of_encoded {marks : List Char} (sign : '%' ∉ marks)
    (encoded : Percent.Encoded marks cs) : Apart cs := by
  have digit {d : Char} (upper : d ∈ Percent.upperDigits) : d ≠ '%' := by
    rintro rfl
    exact absurd upper (by decide)
  induction encoded with
  | empty => exact .empty
  | kept stays _ ih =>
      refine .other ?_ ih
      rintro rfl
      rcases stays with letter | mark
      · cases letter
      · exact sign mark
  | triplet high low _ ih => exact .sign (digit high) (.other (digit low) ih)

theorem Apart.not_doubled (apart : Apart cs) : ¬ Doubled cs := by
  induction apart with
  | empty => exact not_doubled_nil
  | other plain _ ih =>
      rw [doubled_cons_iff]
      rintro (⟨sign, _⟩ | later)
      · exact plain sign
      · exact ih later
  | sign plain _ ih =>
      rw [doubled_cons_iff, doubled_cons_iff]
      rintro (⟨_, head⟩ | ⟨sign, _⟩ | later)
      · exact plain (Option.some.inj head)
      · exact plain sign
      · exact ih later

theorem percent_not_mark : '%' ∉ Percent.componentMarks := by decide

variable {encoder : Encoder}

theorem encoded_component (lawful : encoder.Lawful) (value : String) :
    Percent.Encoded Percent.componentMarks (encoder Percent.componentMarks value).toList :=
  (lawful.faithful Percent.ascii_componentMarks percent_not_mark).encoded value

theorem apart_written (lawful : encoder.Lawful) (letter : Char) {value : String}
    (apart : Apart value.toList) : Apart (written encoder letter value) := by
  unfold written
  split
  · exact apart_of_encoded percent_not_mark (encoded_component lawful value)
  · exact apart

/-- A template of placeholders has no percent signs of its own to meet those of its values. -/
theorem apart_filled (lawful : encoder.Lawful) {template : List Char} {values : List String}
    (placed : PlaceholdersOnly template) (apart : ∀ value ∈ values, Apart value.toList) :
    Apart ((outline template).filled encoder values) := by
  fun_induction outline template generalizing values with
  | case1 c cs letter ih =>
      have listed : c ∈ letters := isPlaceholder_iff.mp letter
      have behind := (placeholdersOnly_mark_iff listed).mp placed
      rw [Outline.filled_mark]
      cases values with
      | nil => exact .sign (ne_percent listed) (ih behind apart)
      | cons value values =>
          obtain ⟨first, rest⟩ := List.forall_mem_cons.mp apart
          exact (apart_written lawful c first).append (ih behind rest)
  | case2 c cs unlisted _ =>
      obtain ⟨d, rest, split, listed⟩ := (placeholdersOnly_cons_iff.mp placed).1 rfl
      obtain ⟨rfl, _⟩ := List.cons.inj split
      exact absurd (isPlaceholder_iff.mpr listed) unlisted
  | case3 c cs alone ih =>
      obtain ⟨first, behind⟩ := placeholdersOnly_cons_iff.mp placed
      have other : c ≠ '%' := by
        intro sign
        obtain ⟨d, rest, split, _⟩ := first sign
        exact alone d rest sign split
      exact .other other (ih behind apart)
  | case4 => exact .empty

end StyleFunctions.Template
