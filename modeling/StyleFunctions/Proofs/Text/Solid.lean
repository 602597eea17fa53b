import StyleFunctions.Proofs.Text.Trim

/-! Texts without blanks, such as those of ASCII digits and letters, and the small forms of letters. -/

namespace StyleFunctions.Text

/-- Nothing in a text is blank. -/
def Solid (cs : List Char) : Prop := ∀ c ∈ cs, isBlank c = false

instance (cs : List Char) : Decidable (Solid cs) :=
  decidable_of_iff (cs.all (!isBlank ·) = true) (by simp [Solid])

theorem solid_append {front back : List Char} :
    Solid (front ++ back) ↔ Solid front ∧ Solid back := by
  simp only [Solid, List.mem_append, or_imp, forall_and]

theorem solid_cons {c : Char} {cs : List Char} :
    Solid (c :: cs) ↔ isBlank c = false ∧ Solid cs := by
  simp only [Solid, List.forall_mem_cons]

theorem trim_of_solid {cs : List Char} (solid : Solid cs) : trim cs = cs := by
  apply trim_eq_self
  constructor
  · intro c head
    exact solid c (List.mem_of_mem_head? head)
  · intro c last
    exact solid c (List.mem_of_getLast? last)

variable {c : Char}

/-- The blanks of ASCII come before its printed characters. -/
theorem isBlank_of_range (low : 33 ≤ c.toNat) (high : c.toNat < 127) : isBlank c = false := by
  simp [isBlank]
  omega

theorem isAlpha_iff_toNat :
    c.isAlpha = true ↔ 65 ≤ c.toNat ∧ c.toNat ≤ 90 ∨ 97 ≤ c.toNat ∧ c.toNat ≤ 122 := by
  have letter : c.isAlpha = (decide ('A'.val ≤ c.val ∧ c.val ≤ 'Z'.val) ||
      decide ('a'.val ≤ c.val) && decide (c.val ≤ 'z'.val)) := rfl
  simp only [letter, Bool.or_eq_true, Bool.and_eq_true, decide_eq_true_eq, UInt32.le_iff_toNat_le]
  rfl

theorem isDigit_of_isAlpha (letter : c.isAlpha = true) : c.isDigit = false := by
  rw [Bool.eq_false_iff]
  intro digit
  have low := isAlpha_iff_toNat.mp letter
  have high : c.toNat ≤ 57 := (Char.isDigit_iff_toNat.mp digit).2
  omega

theorem isBlank_of_isDigit (digit : c.isDigit = true) : isBlank c = false := by
  have low : 48 ≤ c.toNat := (Char.isDigit_iff_toNat.mp digit).1
  have high : c.toNat ≤ 57 := (Char.isDigit_iff_toNat.mp digit).2
  exact isBlank_of_range (by omega) (by omega)

theorem isBlank_of_isAlpha (letter : c.isAlpha = true) : isBlank c = false := by
  have range := isAlpha_iff_toNat.mp letter
  exact isBlank_of_range (by omega) (by omega)

theorem toNat_toLower (c : Char) :
    c.toLower.toNat = if 65 ≤ c.toNat ∧ c.toNat ≤ 90 then c.toNat + 32 else c.toNat := by
  have capital : (c.val ≥ 'A'.val ∧ c.val ≤ 'Z'.val) ↔ 65 ≤ c.toNat ∧ c.toNat ≤ 90 := Iff.rfl
  unfold Char.toLower
  by_cases upper : 65 ≤ c.toNat ∧ c.toNat ≤ 90
  · have small : c.val.toNat ≤ 90 := upper.2
    rw [dif_pos (capital.mpr upper), if_pos upper]
    calc
      (c.val + 32).toNat = (c.val.toNat + 32) % 2 ^ 32 := UInt32.toNat_add _ _
      _ = c.toNat + 32 := Nat.mod_eq_of_lt (by omega)
  · rw [dif_neg (mt capital.mp upper), if_neg upper]

theorem isAlpha_toLower (c : Char) : c.toLower.isAlpha = c.isAlpha := by
  rw [Bool.eq_iff_iff, isAlpha_iff_toNat, isAlpha_iff_toNat, toNat_toLower]
  split <;> omega

end StyleFunctions.Text
