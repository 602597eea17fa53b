import StyleFunctions.Proofs.Binary64.Nearest
import StyleFunctions.Proofs.Binary64.Scaling

/-!
Neighbors among the doubles: how far apart they are, and how far from a double the way to a part of
it and back ends.
-/

namespace StyleFunctions.Binary64

/-- The double after one is farther from it than one part in `2 ^ 53`. -/
theorem gap_above (bits : Nat) :
    2 ^ 53 * unitsOfBits bits + unitsOfBits bits ≤ 2 ^ 53 * unitsOfBits (bits + 1) := by
  rcases Nat.eq_zero_or_pos bits with rfl | pos
  · exact Nat.zero_le _
  · rcases exists_normal pos with ⟨m, k, normal, rfl⟩
    have small : m * 2 ^ k ≤ 2 ^ 53 * 2 ^ k := Nat.mul_le_mul_right _ (Nat.le_of_lt normal.below)
    rw [unitsOfBits_parts normal, unitsOfBits_succ normal, Nat.add_mul, Nat.one_mul, Nat.mul_add]
    exact Nat.add_le_add_left small _

/-- The double before one is not nearer to it than one part in `2 ^ 53`. -/
theorem gap_below (bits : Nat) :
    2 ^ 53 * unitsOfBits (bits - 1) + unitsOfBits bits ≤ 2 ^ 53 * unitsOfBits bits := by
  rcases Nat.eq_zero_or_pos (bits - 1) with first | pos
  · have none : unitsOfBits 0 = 0 := rfl
    rw [first, none]
    omega
  · rcases exists_normal pos with ⟨m, k, normal, parts⟩
    have next : bits = k * 2 ^ 52 + m + 1 := by omega
    have small : (m + 1) * 2 ^ k ≤ 2 ^ 53 * 2 ^ k := Nat.mul_le_mul_right _ normal.below
    rw [next, unitsOfBits_succ normal, Nat.add_sub_cancel, unitsOfBits_parts normal, Nat.add_mul m,
      Nat.one_mul, Nat.mul_add]
    rw [Nat.add_mul, Nat.one_mul] at small
    exact Nat.add_le_add_left small _

theorem unitsOfBits_add_le (bits j : Nat) : unitsOfBits bits + j ≤ unitsOfBits (bits + j) := by
  induction j with
  | zero => exact Nat.le_refl _
  | succ j steps =>
      calc
        unitsOfBits bits + (j + 1) ≤ unitsOfBits (bits + j) + 1 := Nat.succ_le_succ steps
        _ ≤ unitsOfBits (bits + j + 1) := unitsOfBits_lt_succ (bits + j)

/-- A quotient between two doubles is rounded to one between them. -/
theorem bitsOfRatio_between {low high num den : Nat} (pos : 0 < den) (finite : low < infinityBits)
    (lower : unitsOfBits low * den ≤ num) (upper : num ≤ unitsOfBits high * den) :
    low ≤ bitsOfRatio num den ∧ bitsOfRatio num den ≤ high := by
  constructor
  · rw [← bitsOfRatio_units pos finite]
    exact bitsOfRatio_mono pos lower
  · rcases Nat.lt_or_ge high infinityBits with below | above
    · rw [← bitsOfRatio_units pos below]
      exact bitsOfRatio_mono pos upper
    · exact Nat.le_trans (bitsOfRatio_le num den) above

theorem le_of_near {distance unit places num : Nat} (near : 2 * distance ≤ unit * 2 ^ places)
    (leading : 0 < places → 2 ^ 52 * 2 ^ places * unit ≤ num) :
    2 * distance ≤ unit ∨ 2 ^ 53 * distance ≤ num := by
  rcases Nat.eq_zero_or_pos places with rfl | above
  · left
    rw [Nat.pow_zero, Nat.mul_one] at near
    exact near
  · right
    have lower := leading above
    rw [Nat.mul_assoc, Nat.mul_comm _ unit] at lower
    omega

section

variable {bits part : Nat} (finite : bits < infinityBits) (most : part ≤ one)

include finite most

/-- A part of a finite double is off by half a unit, or by one part in `2 ^ 53`. -/
theorem part_near :
    2 * ((unitsOfBits (bitsOfRatio (unitsOfBits bits * part) one) * one : Nat) -
        ((unitsOfBits bits * part : Nat) : Int)).natAbs ≤ one ∨
      2 ^ 53 * ((unitsOfBits (bitsOfRatio (unitsOfBits bits * part) one) * one : Nat) -
        ((unitsOfBits bits * part : Nat) : Int)).natAbs ≤ unitsOfBits bits * part := by
  have near := bitsOfRatio_near one_pos (bitsOfRatio_part_lt finite most)
  apply le_of_near near
  intro places
  exact (Nat.le_div_iff_mul_le one_pos).mp (two_pow_shiftOf_mul_le places)

end

section

variable {bits part num : Nat} (pos : 0 < part) (finite : bits < infinityBits)

include pos finite

/-- A quotient that is off by one part in `2 ^ 53` is rounded to a neighbor at most. -/
theorem quotient_neighbor
    (near : 2 ^ 53 * ((num : Int) - ((unitsOfBits bits * part : Nat) : Int)).natAbs ≤
      unitsOfBits bits * part) :
    bits - 1 ≤ bitsOfRatio num part ∧ bitsOfRatio num part ≤ bits + 1 := by
  have above := Nat.mul_le_mul_right part (gap_above bits)
  have below := Nat.mul_le_mul_right part (gap_below bits)
  rw [Nat.add_mul, Nat.mul_assoc, Nat.mul_assoc] at above below
  apply bitsOfRatio_between pos (Nat.lt_of_le_of_lt (Nat.sub_le bits 1) finite) <;> omega

theorem quotient_within_four
    (near : ((num : Int) - ((unitsOfBits bits * part : Nat) : Int)).natAbs ≤ 4 * part) :
    bits - 4 ≤ bitsOfRatio num part ∧ bitsOfRatio num part ≤ bits + 4 := by
  have above := Nat.mul_le_mul_right part (unitsOfBits_add_le bits 4)
  have below : unitsOfBits (bits - 4) * part ≤ (unitsOfBits bits - 4) * part := by
    apply Nat.mul_le_mul_right
    rcases Nat.lt_or_ge bits 4 with first | later
    · have none : unitsOfBits 0 = 0 := rfl
      rw [Nat.sub_eq_zero_of_le (Nat.le_of_lt first), none]
      exact Nat.zero_le _
    · have steps := unitsOfBits_add_le (bits - 4) 4
      rw [Nat.sub_add_cancel later] at steps
      omega
  rw [Nat.add_mul] at above
  rw [Nat.sub_mul] at below
  apply bitsOfRatio_between pos (Nat.lt_of_le_of_lt (Nat.sub_le bits 4) finite) <;> omega

end

/-- The product with a fraction that is no less than an eighth, and the quotient by it, end at most
four doubles away, and at a neighbor at most where the units of the double are not few. -/
theorem Fraction.scaledBits_near {c : Float} (part : Fraction c) (least : one ≤ 8 * units c)
    {bits : Nat} (finite : bits < infinityBits) :
    (bits - 4 ≤ scaledBits c c bits ∧ scaledBits c c bits ≤ bits + 4) ∧
      (2 ^ 55 ≤ unitsOfBits bits →
        bits - 1 ≤ scaledBits c c bits ∧ scaledBits c c bits ≤ bits + 1) := by
  have pos := part.units_pos
  have near := part_near finite part.most
  unfold scaledBits
  generalize unitsOfBits (bitsOfRatio (unitsOfBits bits * units c) one) * one = num at *
  rcases near with absolute | relative
  · have four :
        ((num : Int) - ((unitsOfBits bits * units c : Nat) : Int)).natAbs ≤ 4 * units c := by
      omega
    refine ⟨quotient_within_four pos finite four, fun many => quotient_neighbor pos finite ?_⟩
    have scaled := Nat.mul_le_mul_right (units c) many
    omega
  · have neighbor := quotient_neighbor pos finite relative
    exact ⟨by omega, fun _ => neighbor⟩

end StyleFunctions.Binary64
