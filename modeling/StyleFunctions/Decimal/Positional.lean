import StyleFunctions.Decimal.Basic

/-! Positional notation: digits with at most one point, no exponent and no needless zero. -/

namespace StyleFunctions.Decimal

def digits (n : Nat) : List Char := Nat.toDigits 10 n

/-- Without the zeros at the end. -/
def trimZeros (cs : List Char) : List Char := (cs.reverse.dropWhile (· == '0')).reverse

/-- The digits of a number with `places` of them after the point, the zeros at the end left out. -/
def pointed (places : Nat) (ds : List Char) : List Char :=
  let padded := List.replicate (places + 1 - ds.length) '0' ++ ds
  let whole := padded.take (padded.length - places)
  match trimZeros (padded.drop (padded.length - places)) with
  | [] => whole
  | fraction => whole ++ '.' :: fraction

/-- The positional form of `coefficient · 10 ^ exponent`. -/
def positional (coefficient : Nat) (exponent : Int) : List Char :=
  pointed (-exponent).toNat (digits (coefficient * 10 ^ exponent.toNat))

end StyleFunctions.Decimal
