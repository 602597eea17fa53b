import StyleFunctions.Library.Numbers
import StyleFunctions.Proofs.Quantity.Multiples
import StyleFunctions.Proofs.Quantity.Places
import StyleFunctions.Scalar.Double

/-!
The calls of `round`. They round for the whole numbers of places from zero to a hundred, and report
every other number of places.
-/

namespace StyleFunctions.Library

section

variable {α : Type} [Elementary α] [Numeral α]

/-- The answer of a call for what its number of places is read as. -/
def roundAnswer (x : Dimension α) : Except Fault UInt32 → Value α
  | .ok places => .number (x.roundTo places)
  | .error fault => .error fault.report

theorem round_call (context : Context α) (x digits : Dimension α) :
    round.call context [.number x, .number digits] = roundAnswer x (decimalPlaces digits.value) := by
  have unfolded : round.call context [.number x, .number digits] =
      .ofExcept ((decimalPlaces digits.value).bind fun places => .ok (.number (x.roundTo places))) :=
    rfl
  rw [unfolded]
  cases decimalPlaces digits.value with
  | ok places => rfl
  | error fault => rfl

/-- The numbers of places that a call accepts. -/
def Accepted (places : α) : Prop :=
  Scalar.ofNat 0 ≤ places ∧ places ≤ Scalar.ofNat 100 ∧ Scalar.isIntegral places = true

theorem round_accepted (context : Context α) (x : Dimension α) {digits : Dimension α}
    (accepted : Accepted digits.value) :
    round.call context [.number x, .number digits] =
      .number (x.roundTo (.ofNat (Scalar.toNat digits.value))) := by
  have read : decimalPlaces digits.value = .ok (.ofNat (Scalar.toNat digits.value)) := if_pos accepted
  rw [round_call, read, roundAnswer]

theorem round_refused (context : Context α) (x : Dimension α) {digits : Dimension α}
    (refused : ¬ Accepted digits.value) :
    ∃ report, round.call context [.number x, .number digits] = .error report ∧
      report.code = "DOMAIN_ERROR" := by
  have read : decimalPlaces digits.value = .error (.decimalPlaces (Numeral.text digits.value)) :=
    if_neg refused
  rw [round_call, read, roundAnswer]
  exact ⟨_, rfl, rfl⟩

end

theorem placesExponent_ofNat {places : ℕ} (most : places ≤ 100) :
    placesExponent (.ofNat places) = places := by
  have same : (UInt32.ofNat places).toNat = places := UInt32.toNat_ofNat_of_lt' (most.trans_lt (by decide))
  rw [placesExponent_of_lt (by rw [same]; omega), same]

open Binary64 (Denotes)

theorem accepted_iff_denotes {places : Float} :
    Accepted places ↔ ∃ n ≤ 100, Denotes places n := by
  constructor
  · rintro ⟨least, most, integral⟩
    obtain ⟨n, whole⟩ := Binary64.exists_denotes_of_nonneg integral least
    exact ⟨n, (whole.le_ofNat_iff (by decide)).mp most, whole⟩
  · rintro ⟨n, most, whole⟩
    exact ⟨(whole.ofNat_le_iff (by decide)).mpr (Nat.zero_le n),
      (whole.le_ofNat_iff (by decide)).mpr most, whole.isIntegral⟩

section

open scoped Exact
open Exact (HasPlaces Rounded literal_eq_cast)

theorem accepted_iff_natCast {places : ℝ} : Accepted places ↔ ∃ n ≤ 100, places = (n : ℕ) := by
  have zero : (Scalar.ofNat 0 : ℝ) = 0 := (literal_eq_cast 0).trans Nat.cast_zero
  have hundred : (Scalar.ofNat 100 : ℝ) = (100 : ℕ) := literal_eq_cast 100
  unfold Accepted
  rw [zero, hundred]
  constructor
  · rintro ⟨least, most, integral⟩
    obtain ⟨n, rfl⟩ := Exact.nonneg_isIntegral_iff.mp ⟨least, integral⟩
    exact ⟨n, Nat.cast_le.mp most, rfl⟩
  · rintro ⟨n, most, rfl⟩
    have whole : 0 ≤ (n : ℝ) ∧ Scalar.isIntegral (n : ℝ) = true :=
      Exact.nonneg_isIntegral_iff.mpr ⟨n, rfl⟩
    exact ⟨whole.1, Nat.cast_le.mpr most, whole.2⟩

theorem roundTo_ofNat (x : Dimension ℝ) {places : ℕ} (most : places ≤ 100) :
    x.roundTo (.ofNat places) = ⟨roundAt places x.value, x.unit⟩ := by
  have unfolded : x.roundTo (.ofNat places) =
      ⟨roundAt (placesExponent (.ofNat places)) x.value, x.unit⟩ := rfl
  rw [unfolded, placesExponent_ofNat most]

/-- Over the real numbers a call with zero to a hundred places rounds the value and keeps the unit. The
rounded value is the nearest number with so many places, of two that are equally near the one further
from zero; rounding again changes nothing, the order of values is kept, a change of sign goes through,
and a number with no more places than asked for stays as it is. Every other number of places is
reported, and so is in doubles everything but a whole number from zero to a hundred. -/
theorem round_to_places :
    (∀ [Numeral ℝ] (context : Context ℝ) (x digits : Dimension ℝ),
      (∀ places : ℕ, places ≤ 100 → digits.value = places →
        round.call context [.number x, .number digits] = .number ⟨roundAt places x.value, x.unit⟩) ∧
      ((∀ places : ℕ, places ≤ 100 → digits.value ≠ places) →
        ∃ report, round.call context [.number x, .number digits] = .error report ∧
          report.code = "DOMAIN_ERROR")) ∧
    (∀ places : ℕ,
      (∀ x : ℝ, |x| < 2 ^ 52 → Rounded places x (roundAt places x)) ∧
      (∀ x : ℝ, roundAt places (roundAt places x) = roundAt places x) ∧
      (∀ x y : ℝ, x ≤ y → roundAt places x ≤ roundAt places y) ∧
      (∀ x : ℝ, roundAt places (-x) = -roundAt places x) ∧
      ∀ fewer ≤ places, ∀ x, HasPlaces fewer x → roundAt places x = x) ∧
    ∀ (context : Context Float) (x digits : Dimension Float),
      (∀ places ≤ 100, Denotes digits.value places →
        round.call context [.number x, .number digits] = .number (x.roundTo (.ofNat places))) ∧
      ((∀ places ≤ 100, ¬ Denotes digits.value places) →
        ∃ report, round.call context [.number x, .number digits] = .error report ∧
          report.code = "DOMAIN_ERROR") := by
  refine ⟨fun context x digits => ⟨?rounds, ?reports⟩, fun places => ?laws,
    fun context x digits => ⟨?doubles, ?others⟩⟩
  case rounds =>
    intro places most counted
    have accepted := accepted_iff_natCast.mpr ⟨places, most, counted⟩
    have whole : Scalar.toNat digits.value = places := by
      rw [counted]
      exact Nat.floor_natCast places
    rw [round_accepted context x accepted, whole, roundTo_ofNat x most]
  case reports =>
    intro other
    apply round_refused
    rw [accepted_iff_natCast]
    rintro ⟨n, most, counted⟩
    exact other n most counted
  case laws =>
    exact ⟨fun x small => Exact.rounded_roundAt small places, Exact.roundAt_roundAt places,
      fun x y le => Exact.roundAt_mono places le, Exact.roundAt_neg places,
      fun fewer le x given => Exact.roundAt_of_hasPlaces (Exact.hasPlaces_mono le given)⟩
  case doubles =>
    intro places most whole
    have accepted := accepted_iff_denotes.mpr ⟨places, most, whole⟩
    have counted : Scalar.toNat digits.value = places := whole.toNat_eq
    rw [round_accepted context x accepted, counted]
  case others =>
    intro other
    apply round_refused
    rw [accepted_iff_denotes]
    rintro ⟨n, most, whole⟩
    exact other n most whole

/-- A half below zero, and a number of places that is none. -/
theorem round_to_places_half :
    |(-5 / 2 : ℝ)| < 2 ^ 52 ∧ Rounded 0 (-5 / 2) (roundAt (0 : ℕ) (-5 / 2 : ℝ)) ∧
      (∀ places ≤ 100, ¬ Denotes (0 / 0) places) ∧
      ∃ report, round.call (⟨fun _ => none, fun _ => []⟩ : Context Float)
        [.number ⟨Scalar.ofNat 3, "px"⟩, .number (.plain (0 / 0))] = .error report ∧
          report.code = "DOMAIN_ERROR" := by
  have small : |(-5 / 2 : ℝ)| < 2 ^ 52 := by
    rw [abs_lt]
    constructor <;> norm_num
  have infinite : (0 / 0 : Float).isFinite = false := by decide +kernel
  have other : ∀ places ≤ 100, ¬ Denotes (0 / 0) places := by
    intro places _ whole
    rw [whole.finite] at infinite
    cases infinite
  exact ⟨small, (round_to_places.2.1 0).1 _ small, other, (round_to_places.2.2 _ _ _).2 other⟩

end

end StyleFunctions.Library
