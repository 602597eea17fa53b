import StyleFunctions.Text.Blank

/-! Trimming: a text is its trimmed form between two runs of blanks, in one way only. -/

namespace StyleFunctions.Text

def Blanks (cs : List Char) : Prop := ∀ c ∈ cs, isBlank c = true

instance (cs : List Char) : Decidable (Blanks cs) :=
  decidable_of_iff (cs.all isBlank = true) List.all_eq_true

/-- No blank at either end. -/
def Trimmed (cs : List Char) : Prop :=
  (∀ c ∈ cs.head?, isBlank c = false) ∧ ∀ c ∈ cs.getLast?, isBlank c = false

instance (cs : List Char) : Decidable (Trimmed cs) :=
  decidable_of_iff
    (cs.head?.all (!isBlank ·) = true ∧ cs.getLast?.all (!isBlank ·) = true)
    (by simp [Trimmed, Option.all_eq_true])

theorem blanks_append {front back : List Char} (first : Blanks front) (second : Blanks back) :
    Blanks (front ++ back) := by
  intro c member
  rcases List.mem_append.mp member with member | member
  · exact first c member
  · exact second c member

theorem trimStart_blanks {lead : List Char} (blank : Blanks lead) (cs : List Char) :
    trimStart (lead ++ cs) = trimStart cs := by
  induction lead with
  | nil => rfl
  | cons c lead ih =>
      have head : isBlank c = true := blank c (List.mem_cons_self ..)
      have rest : Blanks lead := fun d member => blank d (List.mem_cons_of_mem _ member)
      simpa [trimStart, List.dropWhile_cons, head] using ih rest

theorem trimStart_of_head {cs : List Char} (head : ∀ c ∈ cs.head?, isBlank c = false) :
    trimStart cs = cs := by
  cases cs with
  | nil => rfl
  | cons c cs =>
      have first : isBlank c = false := head c rfl
      simp [trimStart, first]

theorem head_trimStart (cs : List Char) : ∀ c ∈ (trimStart cs).head?, isBlank c = false := by
  induction cs with
  | nil => simp [trimStart]
  | cons d cs ih =>
      by_cases blank : isBlank d = true
      · simpa [trimStart, List.dropWhile_cons, blank] using ih
      · simp [trimStart, blank]

theorem exists_trimStart (cs : List Char) :
    ∃ lead, cs = lead ++ trimStart cs ∧ Blanks lead := by
  refine ⟨cs.takeWhile isBlank, List.takeWhile_append_dropWhile.symm, ?_⟩
  intro c member
  exact List.all_eq_true.mp List.all_takeWhile c member

theorem trimEnd_eq (cs : List Char) : trimEnd cs = (trimStart cs.reverse).reverse := rfl

theorem trimEnd_blanks {tail : List Char} (blank : Blanks tail) (cs : List Char) :
    trimEnd (cs ++ tail) = trimEnd cs := by
  have reversed : Blanks tail.reverse := fun c member => blank c (List.mem_reverse.mp member)
  rw [trimEnd_eq, List.reverse_append, trimStart_blanks reversed, trimEnd_eq]

theorem trimEnd_of_last {cs : List Char} (last : ∀ c ∈ cs.getLast?, isBlank c = false) :
    trimEnd cs = cs := by
  have head : ∀ c ∈ cs.reverse.head?, isBlank c = false := by simpa using last
  rw [trimEnd_eq, trimStart_of_head head, List.reverse_reverse]

theorem last_trimEnd (cs : List Char) : ∀ c ∈ (trimEnd cs).getLast?, isBlank c = false := by
  rw [trimEnd_eq, List.getLast?_reverse]
  exact head_trimStart cs.reverse

theorem exists_trimEnd (cs : List Char) : ∃ tail, cs = trimEnd cs ++ tail ∧ Blanks tail := by
  obtain ⟨lead, split, blank⟩ := exists_trimStart cs.reverse
  refine ⟨lead.reverse, ?_, fun c member => blank c (List.mem_reverse.mp member)⟩
  rw [trimEnd_eq, ← List.reverse_append, ← split, List.reverse_reverse]

/-- What trimming takes away are two runs of blanks. -/
theorem exists_trim (cs : List Char) :
    ∃ lead tail, cs = lead ++ trim cs ++ tail ∧ Blanks lead ∧ Blanks tail := by
  obtain ⟨lead, front, leadBlank⟩ := exists_trimStart cs
  obtain ⟨tail, back, tailBlank⟩ := exists_trimEnd (trimStart cs)
  refine ⟨lead, tail, ?_, leadBlank, tailBlank⟩
  calc
    cs = lead ++ trimStart cs := front
    _ = lead ++ (trimEnd (trimStart cs) ++ tail) := by rw [← back]
    _ = lead ++ trim cs ++ tail := by rw [trim, List.append_assoc]

theorem trimmed_trim (cs : List Char) : Trimmed (trim cs) := by
  refine ⟨?_, last_trimEnd (trimStart cs)⟩
  obtain ⟨tail, back, _⟩ := exists_trimEnd (trimStart cs)
  intro c head
  apply head_trimStart cs
  rw [back, ← trim, List.head?_append]
  simp only [Option.mem_def] at head ⊢
  rw [head, Option.some_or]

/-- Trimming finds a trimmed text between two runs of blanks. -/
theorem trim_padded (lead cs tail : List Char) (leadBlank : Blanks lead) (trimmed : Trimmed cs)
    (tailBlank : Blanks tail) : trim (lead ++ cs ++ tail) = cs := by
  rw [trim, List.append_assoc, trimStart_blanks leadBlank]
  cases cs with
  | nil =>
      have empty : trimStart (tail ++ []) = [] := trimStart_blanks tailBlank []
      rw [List.nil_append, ← List.append_nil tail, empty]
      rfl
  | cons c cs =>
      have head : ∀ d ∈ (c :: cs ++ tail).head?, isBlank d = false := trimmed.1
      rw [trimStart_of_head head, trimEnd_blanks tailBlank, trimEnd_of_last trimmed.2]

theorem trim_eq_self {cs : List Char} (trimmed : Trimmed cs) : trim cs = cs := by
  simpa using trim_padded [] cs [] (by simp [Blanks]) trimmed (by simp [Blanks])

theorem trim_blanks {cs : List Char} (blank : Blanks cs) : trim cs = [] := by
  simpa using trim_padded cs [] [] blank (by simp [Trimmed]) (by simp [Blanks])

end StyleFunctions.Text
