import Mathlib.Data.Rat.Floor
import StyleFunctions.Library.Colors
import StyleFunctions.Proofs.Color.Spin

/-!
The calls of the adjustments, over exact numbers: what each leaves alone, which of them undo each other, and
that spins of the hue add up.
-/

namespace StyleFunctions

open scoped Exact

theorem Library.adjust_call {α : Type} [Scalar α] (context : Context α) (adjustment : Adjustment)
    (c : Rgba α) (amount : Dimension α) :
    (adjust adjustment).call context [.color c, .number amount] =
      .color (adjustment.apply c (adjustmentAmount adjustment amount)) := by
  cases adjustment <;> rfl

theorem purple_inGamut : (⟨120, 40, 200, 1 / 2⟩ : Rgba ℚ).InGamut := by
  constructor
  · constructor <;> norm_num
  · norm_num

open Adjustment in
/-- Whatever the amount, the fades keep the channels and all other adjustments the alpha. In the adjusted
view a share is the nearest one to its target, and a hue is the angle of its target inside one turn.
Where that view has a color to it, it is the view of the adjusted color, which so keeps what was not
adjusted. And the step back by the same amount returns the color unless the range cut the first step
short, or that step led to black or white, or took the last of the saturation or gave some to a grey. -/
theorem adjustments_undone (c : Rgba ℚ) (inside : c.InGamut) (x : ℚ) :
    (∀ (context : Context ℚ) (adjustment : Adjustment) (amount : Dimension ℚ),
      (Library.adjust adjustment).call context [.color c, .number amount] =
        .color (adjustment.apply c (Library.adjustmentAmount adjustment amount))) ∧
    (∀ adjustment ∈ [fadeIn, fadeOut, fade],
      (adjustment.apply c x).red = c.red ∧ (adjustment.apply c x).green = c.green ∧
        (adjustment.apply c x).blue = c.blue) ∧
    (∀ adjustment ∈ [saturate, desaturate, lighten, darken, spin],
      (adjustment.apply c x).alpha = c.alpha) ∧
    (∀ adjustment : Adjustment,
      let v := adjustment.adjust (Hsl.ofRgba c) x
      (adjustment.coordinate ≠ .hue →
        v.read adjustment.coordinate = max 0 (min 1 (adjustment.target (Hsl.ofRgba c) x))) ∧
      (adjustment = spin → v.hue ∈ Set.Ico 0 360 ∧
        ∃ turns : ℤ, v.hue = adjustment.target (Hsl.ofRgba c) x + 360 * turns) ∧
      (0 < v.saturation → v.lightness ∈ Set.Ioo 0 1 →
        Hsl.ofRgba (adjustment.apply c x) = v ∧
        ∀ other ≠ adjustment.coordinate,
          (Hsl.ofRgba (adjustment.apply c x)).read other = (Hsl.ofRgba c).read other)) ∧
    (0 ≤ x →
      let v := Hsl.ofRgba c
      (v.lightness + x < 1 → darken.apply (lighten.apply c x) x = c) ∧
      (0 < v.lightness - x → lighten.apply (darken.apply c x) x = c) ∧
      (0 < v.saturation → v.saturation + x ≤ 1 → desaturate.apply (saturate.apply c x) x = c) ∧
      (0 < v.saturation → 0 < v.saturation - x → saturate.apply (desaturate.apply c x) x = c) ∧
      (c.alpha + x ≤ 1 → fadeOut.apply (fadeIn.apply c x) x = c) ∧
      (0 ≤ c.alpha - x → fadeIn.apply (fadeOut.apply c x) x = c)) := by
  refine ⟨fun context adjustment => Library.adjust_call context adjustment c, ?channels, ?alpha, ?view,
    ?back⟩
  case channels =>
    intro adjustment fades
    have alpha : adjustment.coordinate = .alpha := by
      simp only [List.mem_cons, List.not_mem_nil, or_false] at fades
      rcases fades with rfl | rfl | rfl <;> rfl
    obtain ⟨_, same⟩ := apply_of_alpha inside alpha x
    rw [same]
    exact ⟨rfl, rfl, rfl⟩
  case alpha =>
    intro adjustment moves
    apply alpha_apply inside
    simp only [List.mem_cons, List.not_mem_nil, or_false] at moves
    rcases moves with rfl | rfl | rfl | rfl | rfl <;> nofun
  case view =>
    intro adjustment v
    refine ⟨fun fraction => read_adjust_fraction fraction _ x, ?_, fun share light => ?_⟩
    · rintro rfl
      exact spin_hue (Hsl.ofRgba c) x
    · have same := ofRgba_apply_of_colored inside ⟨share, light⟩
      refine ⟨same, fun other kept => ?_⟩
      rw [same]
      exact read_adjust kept _ x
  case back =>
    intro nonneg v
    obtain ⟨⟨_, saturation, lightness, alpha⟩, _⟩ := Hsl.canonical_ofRgba inside
    refine ⟨?_, ?_, ?_, ?_, ?_, ?_⟩
    · intro below
      exact lightness_back .lighten rfl inside ⟨add_nonneg lightness.1 nonneg, below.le⟩
        fun between => ⟨add_pos_of_pos_of_nonneg between.1 nonneg, below⟩
    · intro above
      exact lightness_back .darken rfl inside ⟨above.le, (sub_le_self _ nonneg).trans lightness.2⟩
        fun between => ⟨above, (sub_le_self _ nonneg).trans_lt between.2⟩
    · intro colored most
      exact saturation_back .saturate rfl inside colored
        ⟨add_pos_of_pos_of_nonneg colored nonneg, most⟩
    · intro colored left
      exact saturation_back .desaturate rfl inside colored
        ⟨left, (sub_le_self _ nonneg).trans saturation.2⟩
    · intro most
      exact alpha_back .fadeIn rfl inside ⟨add_nonneg alpha.1 nonneg, most⟩
    · intro least
      exact alpha_back .fadeOut rfl inside ⟨least, (sub_le_self _ nonneg).trans alpha.2⟩

/-- A purple that is lightened past the middle, where its saturation is counted from white, and a black,
which has none. -/
theorem adjustments_undone_purple :
    (⟨120, 40, 200, 1 / 2⟩ : Rgba ℚ).InGamut ∧
      (Hsl.ofRgba (⟨120, 40, 200, 1 / 2⟩ : Rgba ℚ)).lightness + 1 / 5 < 1 ∧
      Adjustment.darken.apply (Adjustment.lighten.apply (⟨120, 40, 200, 1 / 2⟩ : Rgba ℚ) (1 / 5))
        (1 / 5) = ⟨120, 40, 200, 1 / 2⟩ ∧
      (⟨0, 0, 0, 1⟩ : Rgba ℚ).InGamut ∧ (Hsl.ofRgba (⟨0, 0, 0, 1⟩ : Rgba ℚ)).lightness + 2 / 3 < 1 ∧
      Adjustment.darken.apply (Adjustment.lighten.apply (⟨0, 0, 0, 1⟩ : Rgba ℚ) (2 / 3)) (2 / 3) =
        ⟨0, 0, 0, 1⟩ := by
  have black : (⟨0, 0, 0, 1⟩ : Rgba ℚ).InGamut := by
    constructor
    · constructor <;> norm_num
    · norm_num
  have middle : (Hsl.ofRgba (⟨120, 40, 200, 1 / 2⟩ : Rgba ℚ)).lightness = 8 / 17 := by
    decide +kernel
  have dark : (Hsl.ofRgba (⟨0, 0, 0, 1⟩ : Rgba ℚ)).lightness = 0 := by
    decide +kernel
  have lighter : (Hsl.ofRgba (⟨120, 40, 200, 1 / 2⟩ : Rgba ℚ)).lightness + 1 / 5 < 1 := by
    rw [middle]
    norm_num
  have grey : (Hsl.ofRgba (⟨0, 0, 0, 1⟩ : Rgba ℚ)).lightness + 2 / 3 < 1 := by
    rw [dark]
    norm_num
  have colored := (adjustments_undone _ purple_inGamut (1 / 5)).2.2.2.2 (by norm_num)
  have plain := (adjustments_undone _ black (2 / 3)).2.2.2.2 (by norm_num)
  exact ⟨purple_inGamut, lighter, colored.1 lighter, black, grey, plain.1 grey⟩

open Adjustment in
/-- Spins of a color add up, whole turns change nothing, and a spin is undone by its opposite. A spin of a
view with any hue leads to the angle inside one turn that is whole turns apart from their sum, and sets
nothing else. -/
theorem spins_rotate :
    (∀ c : Rgba ℚ, c.InGamut →
      (∀ (context : Context ℚ) (angle : Dimension ℚ),
        (Library.adjust spin).call context [.color c, .number angle] =
          .color (spin.apply c angle.value)) ∧
      (∀ x y, spin.apply (spin.apply c x) y = spin.apply c (x + y)) ∧
      (∀ turns : ℤ, spin.apply c (360 * turns) = c) ∧
      ∀ x, spin.apply (spin.apply c x) (-x) = c) ∧
    ∀ (v : Hsl ℚ) (x : ℚ),
      let spun := spin.adjust v x
      spun.hue ∈ Set.Ico 0 360 ∧ (∃ turns : ℤ, spun.hue = v.hue + x + 360 * turns) ∧
        spun.saturation = v.saturation ∧ spun.lightness = v.lightness ∧ spun.alpha = v.alpha := by
  constructor
  · intro c inside
    exact ⟨fun context => Library.adjust_call context spin c, spin_spin inside, spin_turns inside,
      spin_back inside⟩
  · intro v x
    obtain ⟨turn, apart⟩ := spin_hue v x
    exact ⟨turn, apart, rfl, rfl, rfl⟩

/-- More than a turn forward, and more than two turns back. -/
theorem spins_rotate_purple :
    (⟨120, 40, 200, 1 / 2⟩ : Rgba ℚ).InGamut ∧
      Adjustment.spin.apply (Adjustment.spin.apply (⟨120, 40, 200, 1 / 2⟩ : Rgba ℚ) 400) (-1000) =
        Adjustment.spin.apply ⟨120, 40, 200, 1 / 2⟩ (400 + -1000) :=
  ⟨purple_inGamut, (spins_rotate.1 _ purple_inGamut).2.1 400 (-1000)⟩

end StyleFunctions
