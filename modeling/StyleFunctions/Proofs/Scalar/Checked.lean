import StyleFunctions.Proofs.Scalar.Exact

/-!
Exact numbers on which a division by zero is a failure. Arithmetic passes a failure on, so a formula that
compares no quotients and has a value on these numbers divides by zero nowhere.
-/

namespace StyleFunctions

inductive Checked (K : Type) where
  | value (x : K)
  | failure

namespace Checked

section Operations

variable {K : Type}

def map (f : K → K) : Checked K → Checked K
  | value x => value (f x)
  | failure => failure

def zip (f : K → K → K) : Checked K → Checked K → Checked K
  | value x, value y => value (f x y)
  | _, _ => failure

/-- Like a NaN, a failure compares with nothing. -/
def both (related : K → K → Bool) : Checked K → Checked K → Bool
  | value x, value y => related x y
  | _, _ => false

/-- An operation that needs a divisor. -/
def divided [Zero K] [DecidableEq K] (f : K → K → K) : Checked K → Checked K → Checked K
  | value x, value y => if y = 0 then failure else value (f x y)
  | _, _ => failure

def isFailure : Checked K → Bool
  | value _ => false
  | failure => true

/-- A choice between two results has a value when the chosen result has one. -/
theorem ite_value {x y : K} {p q : Prop} [Decidable p] [Decidable q] (same : p ↔ q) {u v : Checked K}
    (first : q → u = value x) (second : ¬ q → v = value y) :
    (if p then u else v) = value (if q then x else y) := by
  by_cases holds : q
  · rw [if_pos (same.mpr holds), if_pos holds, first holds]
  · rw [if_neg (mt same.mp holds), if_neg holds, second holds]

end Operations

variable {K : Type} [Field K] [LinearOrder K] [FloorRing K] {x y : K}

open scoped Exact

scoped instance scalar : Scalar (Checked K) where
  add := zip (· + ·)
  sub := zip (· - ·)
  mul := zip (· * ·)
  div := divided (· / ·)
  neg := map Neg.neg
  lt x y := both (fun a b => decide (a < b)) x y
  le x y := both (fun a b => decide (a ≤ b)) x y
  beq := both (· == ·)
  decideLT x y := inferInstanceAs (Decidable (both (fun a b => decide (a < b)) x y = true))
  decideLE x y := inferInstanceAs (Decidable (both (fun a b => decide (a ≤ b)) x y = true))
  ofDecimal d := value (Scalar.ofDecimal d)
  abs := map Scalar.abs
  floor := map Scalar.floor
  ceil := map Scalar.ceil
  round := map Scalar.round
  trunc := map Scalar.trunc
  rem := divided Scalar.rem
  isNaN := isFailure
  isFinite x := !x.isFailure
  order
    | value x, value y => compare x y
    | value _, failure => .lt
    | failure, value _ => .gt
    | failure, failure => .eq
  toNat
    | value x => Scalar.toNat x
    | failure => 0

theorem literal (n : ℕ) :
    (@OfNat.ofNat (Checked K) n (Scalar.instOfNat n)) =
      value (@OfNat.ofNat K n (Scalar.instOfNat n)) :=
  rfl

theorem value_add (x y : K) : value x + value y = value (x + y) := rfl

theorem value_sub (x y : K) : value x - value y = value (x - y) := rfl

theorem value_mul (x y : K) : value x * value y = value (x * y) := rfl

theorem value_neg (x : K) : -value x = value (-x) := rfl

theorem value_beq (x y : K) : (value x == value y) = (x == y) := rfl

theorem value_beq_zero : (value x == 0) = true ↔ x = 0 := by
  change (x == @OfNat.ofNat K 0 (Scalar.instOfNat 0)) = true ↔ x = 0
  rw [Exact.literal_zero, beq_iff_eq]

theorem value_div (divisor : y ≠ 0) : value x / value y = value (x / y) :=
  if_neg divisor

theorem value_lt : value x < value y ↔ x < y := decide_eq_true_iff

theorem value_le : value x ≤ value y ↔ x ≤ y := decide_eq_true_iff

theorem larger_value (x y : K) : Scalar.larger (value x) (value y) = value (Scalar.larger x y) :=
  ite_value value_lt (fun _ => rfl) fun _ => rfl

theorem smaller_value (x y : K) : Scalar.smaller (value x) (value y) = value (Scalar.smaller x y) :=
  ite_value value_lt (fun _ => rfl) fun _ => rfl

theorem clampUnit_value (x : K) : Scalar.clampUnit (value x) = value (Scalar.clampUnit x) :=
  ite_value value_lt (fun _ => rfl) fun _ => ite_value value_lt (fun _ => rfl) fun _ => rfl

theorem cyclic_value (divisor : y ≠ 0) (x : K) :
    Scalar.cyclic (value x) (value y) = value (Scalar.cyclic x y) := by
  have remainder : Scalar.rem (value x) (value y) = value (Scalar.rem x y) := if_neg divisor
  rw [Scalar.cyclic, remainder]
  exact ite_value value_lt (fun _ => rfl) fun _ => rfl

end Checked

end StyleFunctions
