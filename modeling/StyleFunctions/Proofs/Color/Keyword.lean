import StyleFunctions.Color.Keyword
import StyleFunctions.Proofs.Color.Encoding

/-! Whatever word or literal a color is written by, its channels are bytes. -/

namespace StyleFunctions

namespace ColorKeyword

open scoped Exact
open Exact (literal)

variable {K : Type} [Field K] [LinearOrder K] [FloorRing K] [IsStrictOrderedRing K]

theorem color_inGamut (b : Bytes) : (b.color : Rgba K).InGamut := by
  have channel (n : UInt8) : (Scalar.ofNat n.toNat : K) ∈ Set.Icc (0 : K) 255 := by
    have byte : n.toNat ≤ 255 := Nat.le_of_lt_succ (UInt8.toNat_lt n)
    rw [show (Scalar.ofNat n.toNat : K) = n.toNat from Exact.literal_eq_cast n.toNat]
    exact ⟨Nat.cast_nonneg _, by exact_mod_cast byte⟩
  refine ⟨⟨channel b.red, channel b.green, channel b.blue⟩, ?_⟩
  obtain ⟨lower, upper⟩ := channel b.alpha
  simp only [Bytes.color, ofBytes, literal]
  constructor <;> linarith

/-- Every color that is known by a text is in the gamut, whatever parser reads it. -/
theorem resolve_inGamut {parser : Parser} {text : String} {c : Rgba K}
    (known : resolve parser text = some c) : c.InGamut := by
  unfold resolve at known
  split at known
  case isTrue =>
    obtain ⟨b, _, rfl⟩ := Option.map_eq_some_iff.mp known
    exact color_inGamut b
  case isFalse => cases known

end ColorKeyword

end StyleFunctions
