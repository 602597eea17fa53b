import Mathlib.Tactic.Tauto
import StyleFunctions.Proofs.Text.Solid
import StyleFunctions.Text.Template

/-!
What is relied on when a template is searched: the matches are the leftmost ones and do not overlap,
and case is ignored by simple case folding. The result is then determined, so that every engine does
what the one to run programs with does.
-/

namespace StyleFunctions.Search

variable {σ : Type} {Match : List Char → Prop} {replacer : List Char → StateM σ (List Char)}
  {cs front found back : List Char}

/-- A text cut at its leftmost match. -/
structure Leftmost (Match : List Char → Prop) (cs front found back : List Char) : Prop where
  split : cs = front ++ found ++ back
  isMatch : Match found
  length_le (first other last : List Char) : cs = first ++ other ++ last → Match other →
    front.length ≤ first.length

/-- What becomes of a text and of the state of the replacer. The search goes on behind a match, and
what is put in its place is not searched. -/
inductive Replaced (Match : List Char → Prop) (replacer : List Char → StateM σ (List Char)) :
    List Char → σ → List Char → σ → Prop where
  | none {cs : List Char} {state : σ} :
      (∀ front found back, cs = front ++ found ++ back → ¬ Match found) →
      Replaced Match replacer cs state cs state
  | found {cs front found back out answer : List Char} {before between after : σ} :
      Leftmost Match cs front found back → (replacer found).run before = (out, between) →
      Replaced Match replacer back between answer after →
      Replaced Match replacer cs before (front ++ out ++ answer) after

/-- A searcher that replaces all that matches. -/
def Searcher.Finds (searcher : Searcher) (Match : List Char → Prop) : Prop :=
  ∀ (σ : Type) (replacer : List Char → StateM σ (List Char)) (cs : List Char) (state : σ),
    Replaced Match replacer cs state ((searcher.replaceAll replacer cs).run state).1
      ((searcher.replaceAll replacer cs).run state).2

/-- Simple case folding of Unicode, as far as it reaches the letters of the placeholders: besides the
capital letters, only the long s is folded to one of them. -/
structure SimpleFolding (fold : Char → Char) : Prop where
  s_iff (c : Char) : fold c = 's' ↔ c = 's' ∨ c = 'S' ∨ c = '\u017f'
  d_iff (c : Char) : fold c = 'd' ↔ c = 'd' ∨ c = 'D'
  a_iff (c : Char) : fold c = 'a' ↔ c = 'a' ∨ c = 'A'

/-- An engine that takes the expression for a placeholder to mean what the syntax of expressions
says. -/
structure Engine.Lawful (engine : Engine) : Prop where
  folding : SimpleFolding engine.fold
  compile : ∃ searcher, engine.compile "(?i)%[sda]" = .ok searcher ∧
    searcher.Finds fun found => ∃ c, found = ['%', c] ∧ engine.fold c ∈ ['s', 'd', 'a']

/-! ### The result is determined -/

theorem Leftmost.unique {n : Nat} (width : ∀ found, Match found → found.length = n)
    {first other last : List Char} (left : Leftmost Match cs front found back)
    (right : Leftmost Match cs first other last) :
    front = first ∧ found = other ∧ back = last := by
  have place : front.length = first.length :=
    Nat.le_antisymm (left.length_le first other last right.split right.isMatch)
      (right.length_le front found back left.split left.isMatch)
  have size : found.length = other.length :=
    (width found left.isMatch).trans (width other right.isMatch).symm
  have same : front ++ found ++ back = first ++ other ++ last := left.split.symm.trans right.split
  obtain ⟨heads, rfl⟩ := List.append_inj same (by rw [List.length_append, List.length_append,
    place, size])
  obtain ⟨rfl, rfl⟩ := List.append_inj heads place
  exact ⟨rfl, rfl, rfl⟩

/-- When all matches are of the same length, a text becomes one thing only. -/
theorem Replaced.unique {n : Nat} (width : ∀ found, Match found → found.length = n)
    {state left right : σ} {answer other : List Char}
    (known : Replaced Match replacer cs state answer left)
    (same : Replaced Match replacer cs state other right) : answer = other ∧ left = right := by
  induction known generalizing other right with
  | none nowhere =>
      cases same with
      | none => exact ⟨rfl, rfl⟩
      | found cut => exact absurd cut.isMatch (nowhere _ _ _ cut.split)
  | found cut ran _ ih =>
      cases same with
      | none nowhere => exact absurd cut.isMatch (nowhere _ _ _ cut.split)
      | found cut' ran' rest =>
          obtain ⟨rfl, rfl, rfl⟩ := cut.unique width cut'
          obtain ⟨rfl, rfl⟩ := Prod.mk.inj (ran.symm.trans ran')
          obtain ⟨rfl, rfl⟩ := ih rest
          exact ⟨rfl, rfl⟩

/-! ### From right to left -/

/-- A match at the beginning is the leftmost one. -/
theorem Leftmost.head (here : Match found) : Leftmost Match (found ++ back) [] found back where
  split := rfl
  isMatch := here
  length_le _ _ _ _ _ := Nat.zero_le _

/-- A character at which no match begins. -/
theorem Leftmost.cons {d : Char} (none : ∀ found back, d :: cs = found ++ back → ¬ Match found)
    (cut : Leftmost Match cs front found back) :
    Leftmost Match (d :: cs) (d :: front) found back where
  split := congrArg (d :: ·) cut.split
  isMatch := cut.isMatch
  length_le first other last split match_ := by
    cases first with
    | nil => exact absurd match_ (none other last split)
    | cons e first =>
        have later := cut.length_le first other last (List.cons.inj split).2 match_
        exact Nat.succ_le_succ later

theorem Replaced.cons {d : Char} (none : ∀ found back, d :: cs = found ++ back → ¬ Match found)
    {before after : σ} {answer : List Char}
    (known : Replaced Match replacer cs before answer after) :
    Replaced Match replacer (d :: cs) before (d :: answer) after := by
  cases known with
  | none nowhere =>
      refine .none fun front found back split => ?_
      cases front with
      | nil => exact none found back split
      | cons e front => exact nowhere front found back (List.cons.inj split).2
  | found cut ran rest => exact .found (cut.cons none) ran rest

end StyleFunctions.Search

namespace StyleFunctions.Template

open Search (Searcher Engine Replaced SimpleFolding)

/-! ### Placeholders -/

/-- The characters that make a placeholder of the percent sign before them. -/
def letters : List Char := ['s', 'd', 'a', 'S', 'D', 'A', '\u017f']

def IsPlaceholder (found : List Char) : Prop := ∃ c ∈ letters, found = ['%', c]

theorem IsPlaceholder.length_eq {found : List Char} (placeholder : IsPlaceholder found) :
    found.length = 2 := by
  obtain ⟨c, _, rfl⟩ := placeholder
  rfl

/-- The matches of the expression are the placeholders. -/
theorem match_eq {fold : Char → Char} (folding : SimpleFolding fold) :
    (fun found => ∃ c, found = ['%', c] ∧ fold c ∈ ['s', 'd', 'a']) = IsPlaceholder := by
  have letter (c : Char) : fold c ∈ ['s', 'd', 'a'] ↔ c ∈ letters := by
    simp only [List.mem_cons, List.not_mem_nil, or_false, folding.s_iff, folding.d_iff,
      folding.a_iff, letters]
    tauto
  funext found
  simp only [letter, IsPlaceholder, and_comm]

/-- A lawful engine finds the placeholders. -/
theorem exists_searcher {engine : Engine} (lawful : engine.Lawful) :
    ∃ searcher, engine.compile pattern = .ok searcher ∧ searcher.Finds IsPlaceholder := by
  obtain ⟨searcher, compiled, finds⟩ := lawful.compile
  exact ⟨searcher, compiled, match_eq lawful.folding ▸ finds⟩

/-! ### The engine to run programs with -/

theorem toNat_foldLetter (c : Char) :
    (foldLetter c).toNat = if c.toNat = 383 then 115
      else if 65 ≤ c.toNat ∧ c.toNat ≤ 90 then c.toNat + 32 else c.toNat := by
  have long : (c == '\u017f') = true ↔ c.toNat = 383 := by
    rw [beq_iff_eq, ← Char.toNat_inj]
    rfl
  unfold foldLetter
  simp only [long, ← Text.toNat_toLower]
  split <;> rfl

theorem simpleFolding_foldLetter : SimpleFolding foldLetter := by
  constructor <;>
  · intro c
    simp only [← Char.toNat_inj, toNat_foldLetter, Char.reduceToNat]
    split <;> (try split) <;> omega

theorem isPlaceholder_iff {c : Char} : isPlaceholder c = true ↔ c ∈ letters := by
  have placeholder := congrFun (match_eq simpleFolding_foldLetter) ['%', c]
  simpa [IsPlaceholder, isPlaceholder] using placeholder

theorem finds_replacePlaceholders : Searcher.Finds ⟨replacePlaceholders⟩ IsPlaceholder := by
  intro σ replacer cs state
  dsimp only
  fun_induction replacePlaceholders replacer cs generalizing state with
  | case1 c cs letter ih =>
      have here : IsPlaceholder ['%', c] := ⟨c, isPlaceholder_iff.mp letter, rfl⟩
      exact .found (.head here) rfl (ih _)
  | case2 c cs other ih =>
      refine (ih state).cons ?_
      rintro _ back split ⟨d, letter, rfl⟩
      obtain ⟨rfl, _⟩ := List.cons.inj (List.cons.inj split).2
      exact other (isPlaceholder_iff.mpr letter)
  | case3 c cs alone ih =>
      refine (ih state).cons ?_
      rintro _ back split ⟨d, _, rfl⟩
      obtain ⟨sign, rest⟩ := List.cons.inj split
      exact alone d back sign rest
  | case4 =>
      refine .none ?_
      rintro front _ back split ⟨d, _, rfl⟩
      cases front <;> cases split

theorem lawful_ownEngine : ownEngine.Lawful where
  folding := simpleFolding_foldLetter
  compile := by
    have finds := finds_replacePlaceholders
    rw [← match_eq simpleFolding_foldLetter] at finds
    exact ⟨⟨replacePlaceholders⟩, rfl, finds⟩

/-- What a searcher makes of a template, in whatever way it works. -/
theorem replaceAll_eq {searcher : Searcher} (finds : searcher.Finds IsPlaceholder) {σ : Type}
    (replacer : List Char → StateM σ (List Char)) (cs : List Char) (state : σ) :
    (searcher.replaceAll replacer cs).run state = (replacePlaceholders replacer cs).run state := by
  have same := (finds σ replacer cs state).unique (fun _ => IsPlaceholder.length_eq)
    (finds_replacePlaceholders σ replacer cs state)
  exact Prod.ext same.1 same.2

end StyleFunctions.Template
