import StyleFunctions.Proofs.Color.Adjustment

/-!
A spin is a rotation of the color wheel: spins add up, and whole turns change nothing. On the views of
colors this is the law of the cyclic remainder; a grey, which has no hue to turn, stays as it is.
-/

namespace StyleFunctions

open scoped Exact
open Exact (literal)

variable {K : Type} [Field K] [LinearOrder K] [FloorRing K] {v : Hsl K} {c : Rgba K} {x y : K}

/-- A grey is decoded without regard to its hue. -/
theorem Hsl.toRgba_set_hue [IsStrictOrderedRing K] (inside : v.InRange) (grey : v.saturation = 0)
    (x : K) : (v.set .hue x).toRgba = v.toRgba := by
  rcases v with ⟨h, s, l, a⟩
  obtain rfl : s = 0 := grey
  have turned := toRgba_grey x inside.lightness inside.alpha
  have still := toRgba_grey h inside.lightness inside.alpha
  exact turned.trans still.symm

namespace Adjustment

theorem spin_adjust (v : Hsl K) (x : K) :
    spin.adjust v x = v.set .hue (Scalar.cyclic (v.hue + x) 360) := by
  rw [adjust, literal]
  rfl

variable [IsStrictOrderedRing K]

theorem spin_hue (v : Hsl K) (x : K) :
    (spin.adjust v x).hue ∈ Set.Ico 0 360 ∧
      ∃ turns : ℤ, (spin.adjust v x).hue = v.hue + x + 360 * turns := by
  have turn : (0 : K) < 360 := by norm_num
  rw [spin_adjust]
  exact ⟨⟨Exact.cyclic_nonneg turn _, Exact.cyclic_lt turn _⟩, Exact.exists_cyclic_turns turn _⟩

theorem spin_adjust_adjust (v : Hsl K) (x y : K) :
    spin.adjust (spin.adjust v x) y = spin.adjust v (x + y) := by
  have hue : (v.set .hue (Scalar.cyclic (v.hue + x) 360)).hue = Scalar.cyclic (v.hue + x) 360 := rfl
  rw [spin_adjust v, spin_adjust, spin_adjust, hue, Exact.cyclic_cyclic_add (by norm_num),
    Hsl.set_set, add_assoc]

theorem spin_adjust_turns (turn : v.hue ∈ Set.Ico 0 360) (turns : ℤ) :
    spin.adjust v (360 * turns) = v := by
  rw [spin_adjust, Exact.cyclic_add_turns (by norm_num), Exact.cyclic_of_mem turn.1 turn.2]
  exact v.set_read

theorem spin_grey (inside : c.InGamut) (grey : (Hsl.ofRgba c).saturation = 0) (x : K) :
    spin.apply c x = c := by
  rw [apply, spin_adjust, Hsl.toRgba_set_hue (Hsl.canonical_ofRgba inside).toInRange grey,
    Hsl.toRgba_ofRgba inside]

theorem spin_spin (inside : c.InGamut) (x y : K) :
    spin.apply (spin.apply c x) y = spin.apply c (x + y) := by
  have canonical := Hsl.canonical_ofRgba inside
  -- The hue of a grey is lost between the spins, so greys are compared as colors and not as views.
  rcases canonical.shown with colored | ⟨grey, _⟩
  · have kept : (spin.adjust (Hsl.ofRgba c) x).Colored := colored
    rw [apply, ofRgba_apply_of_colored inside kept, spin_adjust_adjust]
    rfl
  · simp only [spin_grey inside grey]

theorem spin_turns (inside : c.InGamut) (turns : ℤ) : spin.apply c (360 * turns) = c := by
  rw [apply, spin_adjust_turns (Hsl.canonical_ofRgba inside).hue, Hsl.toRgba_ofRgba inside]

theorem spin_back (inside : c.InGamut) (x : K) : spin.apply (spin.apply c x) (-x) = c := by
  have still := spin_turns inside 0
  rw [Int.cast_zero, mul_zero] at still
  rw [spin_spin inside, add_neg_cancel, still]

end Adjustment

end StyleFunctions
