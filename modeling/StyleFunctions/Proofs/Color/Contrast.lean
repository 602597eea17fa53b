import StyleFunctions.Library.Colors
import StyleFunctions.Proofs.Binary64.Order

/-!
The choice between two reference colors. It is one between a darker and a lighter color, whichever
is named first, as long as the lumas tell the two apart; where neither luma is less, the color that
is named second is taken for the lighter one.
-/

namespace StyleFunctions

namespace Rgba

variable {α : Type} [Elementary α] {x y : Rgba α}

theorem contrast_of_lt (swapped : y.luma < x.luma) (c : Rgba α) (t : α) :
    c.contrast x y t = if c.luma < t then x else y := by
  simp only [contrast, swapped, if_true]

theorem contrast_of_not_lt (ordered : ¬ y.luma < x.luma) (c : Rgba α) (t : α) :
    c.contrast x y t = if c.luma < t then y else x := by
  simp only [contrast, ordered, if_false]

/-- The alpha has no part in the luma. -/
theorem luma_set_alpha (c : Rgba α) (alpha : α) : ({ c with alpha } : Rgba α).luma = c.luma := rfl

section Asymmetric

variable (asymm : ∀ u v : α, u < v → ¬ v < u)

include asymm

/-- References of different luma may change places. -/
theorem contrast_swap_of_lt (less : x.luma < y.luma) (c : Rgba α) (t : α) :
    c.contrast x y t = (if c.luma < t then y else x) ∧ c.contrast x y t = c.contrast y x t := by
  have first := contrast_of_not_lt (asymm _ _ less) c t
  exact ⟨first, first.trans (contrast_of_lt less c t).symm⟩

theorem contrast_swap_iff (c : Rgba α) (t : α) :
    c.contrast x y t = c.contrast y x t ↔ x.luma < y.luma ∨ y.luma < x.luma ∨ x = y := by
  constructor
  · intro same
    by_cases up : x.luma < y.luma
    · exact .inl up
    · by_cases down : y.luma < x.luma
      · exact .inr (.inl down)
      · rw [contrast_of_not_lt down, contrast_of_not_lt up] at same
        right; right
        split at same
        · exact same.symm
        · exact same
  · rintro (up | down | rfl)
    · exact (contrast_swap_of_lt asymm up c t).2
    · exact (contrast_swap_of_lt asymm down c t).2.symm
    · rfl

end Asymmetric

end Rgba

/-- With references of different luma the answer is the lighter one on a color darker than the
threshold and the darker one on any other, in whichever order the two are given. Where neither luma
is less, the reference that is given second is taken for the lighter one, so that the order does not
matter exactly where the lumas differ or the references do not. -/
theorem contrast_references (c x y : Rgba Float) (t : Float) :
    (∀ (context : Context Float) (threshold : Dimension Float),
      Library.contrast.call context [.color c, .color x, .color y, .number threshold] =
        .color (c.contrast x y threshold.fraction)) ∧
    (x.luma < y.luma → c.contrast x y t = (if c.luma < t then y else x) ∧
      c.contrast y x t = if c.luma < t then y else x) ∧
    (¬ x.luma < y.luma → ¬ y.luma < x.luma → c.contrast x y t = if c.luma < t then y else x) ∧
    (c.contrast x y t = c.contrast y x t ↔ x.luma < y.luma ∨ y.luma < x.luma ∨ x = y) := by
  have asymm (u v : Float) : u < v → ¬ v < u := Binary64.not_lt_of_lt
  refine ⟨fun _ _ => rfl, ?_, fun _ ordered => Rgba.contrast_of_not_lt ordered c t,
    Rgba.contrast_swap_iff asymm c t⟩
  intro less
  exact ⟨(Rgba.contrast_swap_of_lt asymm less c t).1, Rgba.contrast_of_lt less c t⟩

/-- Black and a gray of ten are told apart by their lumas. -/
theorem contrast_references_gray :
    (⟨0, 0, 0, 1⟩ : Rgba Float).luma < (⟨10, 10, 10, 1⟩ : Rgba Float).luma ∧
      (⟨5, 5, 5, 1⟩ : Rgba Float).contrast ⟨10, 10, 10, 1⟩ ⟨0, 0, 0, 1⟩ 0.43 = ⟨10, 10, 10, 1⟩ ∧
      (⟨5, 5, 5, 1⟩ : Rgba Float).contrast ⟨0, 0, 0, 1⟩ ⟨10, 10, 10, 1⟩ 0.43 =
        (⟨5, 5, 5, 1⟩ : Rgba Float).contrast ⟨10, 10, 10, 1⟩ ⟨0, 0, 0, 1⟩ 0.43 := by
  have less : (⟨0, 0, 0, 1⟩ : Rgba Float).luma < (⟨10, 10, 10, 1⟩ : Rgba Float).luma := by
    decide +kernel
  have dark : (⟨5, 5, 5, 1⟩ : Rgba Float).luma < 0.43 := by decide +kernel
  have chosen := contrast_references ⟨5, 5, 5, 1⟩ ⟨0, 0, 0, 1⟩ ⟨10, 10, 10, 1⟩ 0.43
  have lighter := (chosen.2.1 less).2
  rw [if_pos dark] at lighter
  exact ⟨less, lighter, chosen.2.2.2.mpr (.inl less)⟩

/-- Black and a translucent black have the same luma. -/
theorem contrast_depends_on_order :
    ¬ ∀ (c x y : Rgba Float) (t : Float), c.contrast x y t = c.contrast y x t := by
  intro alike
  have tied : (⟨0, 0, 0, 0.5⟩ : Rgba Float).luma = (⟨0, 0, 0, 1⟩ : Rgba Float).luma :=
    Rgba.luma_set_alpha ⟨0, 0, 0, 1⟩ 0.5
  have apart : (⟨0, 0, 0, 0.5⟩ : Rgba Float) ≠ ⟨0, 0, 0, 1⟩ := by decide +kernel
  have irreflexive (u : Float) : ¬ u < u := fun less => Binary64.not_lt_of_lt less less
  have same := (Rgba.contrast_swap_iff (fun _ _ => Binary64.not_lt_of_lt) _ _).mp
    (alike ⟨17, 17, 17, 1⟩ ⟨0, 0, 0, 0.5⟩ ⟨0, 0, 0, 1⟩ 0.43)
  rw [tied] at same
  rcases same with less | less | equal
  · exact irreflexive _ less
  · exact irreflexive _ less
  · exact apart equal

end StyleFunctions
