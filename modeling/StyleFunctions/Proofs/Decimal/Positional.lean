import StyleFunctions.Decimal.Positional
import StyleFunctions.Proofs.Decimal.Grammar

/-! Positional notation is a number of the grammar and keeps the value. -/

namespace StyleFunctions.NumberText

open Decimal (trimZeros pointed positional)

theorem natOfDigits_eq (cs : List Char) : natOfDigits cs = Nat.ofDigitChars 10 cs 0 := rfl

theorem natOfDigits_digits (n : Nat) : natOfDigits (Decimal.digits n) = n := by
  rw [natOfDigits_eq, Decimal.digits, Nat.ofDigitChars_ten_toDigits]

theorem digits_digits (n : Nat) : Digits (Decimal.digits n) := by
  intro c member
  exact Nat.isDigit_of_mem_toDigits (by decide) (by decide) member

theorem digits_zeros (n : Nat) : Digits (List.replicate n '0') := by
  intro c member
  rw [List.eq_of_mem_replicate member]
  decide

theorem natOfDigits_zeros_append (n : Nat) (cs : List Char) :
    natOfDigits (List.replicate n '0' ++ cs) = natOfDigits cs := by
  rw [natOfDigits_eq, natOfDigits_eq, Nat.ofDigitChars_append, Nat.ofDigitChars_replicate_zero,
    Nat.mul_zero]

theorem natOfDigits_append_zeros (cs : List Char) (n : Nat) :
    natOfDigits (cs ++ List.replicate n '0') = natOfDigits cs * 10 ^ n := by
  rw [natOfDigits_eq, natOfDigits_eq, Nat.ofDigitChars_append, Nat.ofDigitChars_replicate_zero,
    Nat.mul_comm]

/-- What is left out are zeros at the end. -/
theorem exists_trimZeros (cs : List Char) : ∃ n, cs = trimZeros cs ++ List.replicate n '0' := by
  have zeros : cs.reverse.takeWhile (· == '0') =
      List.replicate (cs.reverse.takeWhile (· == '0')).length '0' := by
    rw [List.eq_replicate_iff]
    refine ⟨rfl, ?_⟩
    intro c member
    exact beq_iff_eq.mp (List.all_eq_true.mp List.all_takeWhile c member)
  refine ⟨(cs.reverse.takeWhile (· == '0')).length, ?_⟩
  calc
    cs = (cs.reverse.takeWhile (· == '0') ++ cs.reverse.dropWhile (· == '0')).reverse := by
      rw [List.takeWhile_append_dropWhile, List.reverse_reverse]
    _ = trimZeros cs ++ List.replicate (cs.reverse.takeWhile (· == '0')).length '0' := by
      rw [List.reverse_append, zeros, List.reverse_replicate, List.length_replicate]
      rfl

variable {ds : List Char}

/-- Digits with a point before the last `places` of them. -/
theorem mantissa_pointed (digits : Digits ds) (places : Nat) :
    ∃ whole fraction, Mantissa (pointed places ds) whole fraction ∧
      natOfDigits (whole ++ fraction) * 10 ^ places =
        natOfDigits ds * 10 ^ fraction.length := by
  -- From here on only the padded digits matter: they are more than `places` and have the same value.
  generalize padding : List.replicate (places + 1 - ds.length) '0' ++ ds = padded
  have all : Digits padded := padding ▸ digits_append.mpr ⟨digits_zeros _, digits⟩
  have value : natOfDigits ds = natOfDigits padded := by
    rw [← padding, natOfDigits_zeros_append]
  have long : places < padded.length := by
    rw [← padding, List.length_append, List.length_replicate]
    omega
  generalize front : padded.take (padded.length - places) = whole
  generalize back : padded.drop (padded.length - places) = rest
  have split : whole ++ rest = padded := by
    rw [← front, ← back, List.take_append_drop]
  have filled : whole ≠ [] := by
    apply List.ne_nil_of_length_pos
    rw [← front, List.length_take]
    omega
  have count : rest.length = places := by
    rw [← back, List.length_drop]
    omega
  rcases exists_trimZeros rest with ⟨n, zeros⟩
  generalize trimmed : trimZeros rest = fraction at zeros
  rw [← split, zeros, digits_append, digits_append] at all
  have same : natOfDigits ds = natOfDigits (whole ++ fraction) * 10 ^ n := by
    rw [value, ← split, zeros, ← List.append_assoc, natOfDigits_append_zeros]
  refine ⟨whole, fraction, ?_, ?_⟩
  · simp only [pointed, padding, front, back, trimmed]
    cases fraction with
    | nil => exact .whole all.1 filled
    | cons c fraction => exact .pointed all.1 filled all.2.1
  · rw [zeros, List.length_append, List.length_replicate] at count
    rw [same, ← count, Nat.mul_assoc, ← Nat.pow_add, Nat.add_comm]

/-- The positional form of a decimal reads as that value. -/
theorem exists_literal_positional (d : Decimal) :
    ∃ c, Literal ((if d.negative then ['-'] else []) ++ positional d.coefficient d.exponent) c ∧
      c.negative = d.negative ∧ c.numerator * d.denominator = d.numerator * c.denominator := by
  rcases mantissa_pointed (digits_digits (d.coefficient * 10 ^ d.exponent.toNat))
    (-d.exponent).toNat with ⟨whole, fraction, formed, value⟩
  have sign : Sign (if d.negative then ['-'] else []) d.negative := by
    cases d.negative
    · exact .none
    · exact .minus
  have literal := Literal.mk sign formed .none
  rw [List.append_nil] at literal
  refine ⟨_, literal, rfl, ?_⟩
  have up : (0 - (fraction.length : Int)).toNat = 0 := by omega
  have down : (-(0 - (fraction.length : Int))).toNat = fraction.length := by omega
  rw [natOfDigits_digits] at value
  simp only [Decimal.numerator, Decimal.denominator, up, down, Nat.pow_zero, Nat.mul_one]
  exact value

end StyleFunctions.NumberText
