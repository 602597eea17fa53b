import StyleFunctions.Proofs.Color.Luma
import StyleFunctions.Proofs.Color.Contrast
import StyleFunctions.Proofs.Extreme.Selection

/-!
Brightness over the real numbers, and what it decides: the extreme one of several colors, and which
of two references is the light one.
-/

namespace StyleFunctions

open scoped Exact

namespace Extreme

variable {extreme : Extreme} {c d e : Rgba ℝ} {cs : List (Rgba ℝ)}

/-- Colors by their luma, from the end that is asked for. -/
def Outshines (extreme : Extreme) (c d : Rgba ℝ) : Prop := extreme.Reaches c.luma d.luma

theorem outshines_total (c d : Rgba ℝ) : Outshines extreme c d ∨ Outshines extreme d c := by
  cases extreme <;> exact le_total _ _

theorem outshines_trans (first : Outshines extreme c d) (second : Outshines extreme d e) :
    Outshines extreme c e := by
  cases extreme with
  | least => exact le_trans first second
  | greatest => exact le_trans second first

noncomputable def ofColor (c : Rgba ℝ) : Candidate ℝ := ⟨.color, .number c.luma, .color c⟩

theorem isLE_rank_iff_luma (c d : Rgba ℝ) :
    ((ofColor c).key.rank extreme (ofColor d).key).isLE = true ↔ Outshines extreme c d := by
  cases extreme with
  | least => exact Ordering.isLE_iff_ne_gt.trans compare_le_iff_le
  | greatest => exact Ordering.isLE_iff_ne_gt.trans compare_le_iff_le

theorem candidates_color (cs : List (Rgba ℝ)) :
    (cs.map Token.color).mapM candidate? = some (cs.map ofColor) := by
  induction cs with
  | nil => rfl
  | cons c cs ih =>
      rw [List.map_cons, List.mapM_cons, ih]
      rfl

/-- Of several colors the first with the extreme luma is selected. -/
theorem exists_select_color (extreme : Extreme) (present : cs ≠ []) :
    ∃ i d, FirstAt (Outshines extreme) cs i d ∧
      extreme.select (cs.map Token.color) = .token (.color d) := by
  have selected : ∃ d, extreme.select (cs.map Token.color) = .token (.color d) ∧
      Leads (Outshines extreme) cs d := by
    match cs, present with
    | [c], _ => exact ⟨c, rfl, leads_singleton c⟩
    | c :: d :: cs, _ =>
        obtain ⟨e, first, leads⟩ := leads_mergeSort_map
          (fun c d => (c.key.rank extreme d.key).isLE) ofColor (Outshines extreme)
          isLE_rank_iff_luma (fun _ _ _ => outshines_trans) outshines_total
          (List.cons_ne_nil c (d :: cs))
        have single : ¬ 1 < (groups ((c :: d :: cs).map ofColor)).length := by
          rw [List.map_cons, several_groups_iff]
          rintro ⟨f, member, other⟩
          obtain ⟨g, _, rfl⟩ := List.mem_map.mp member
          exact other rfl
        have candidates := candidates_color (c :: d :: cs)
        refine ⟨e, ?_, leads⟩
        simp only [List.map_cons] at candidates single first ⊢
        simp only [select, candidates, single, if_false, ranked, first]
        rfl
  obtain ⟨d, answer, leads⟩ := selected
  obtain ⟨i, first⟩ := firstAt_of_leads (fun y _ => outshines_total d y) leads
  exact ⟨i, d, first, answer⟩

end Extreme

/-- Over the real numbers, with exact powers: the luma of a color is from `0` to `1`. A color that
is raised in one channel is darker afterwards exactly where the channel crosses the joint of the two
linearized pieces and the power has not yet come up to the linear piece; this needs channels closer
to the joint than any whole one, and takes less than one part in a million. By the luma the extreme
one of several colors is selected, and the light one of two references. -/
theorem brightening :
    (∀ c : Rgba ℝ, c.Displayable → c.luma ∈ Set.Icc 0 1 ∧
      ∀ (p : Primary) (x : ℝ), p.read c ≤ x → x ≤ 255 →
        ((p.set c x).luma < c.luma ↔
          p.read c ≤ joint ∧ joint < x ∧ powerPart (x / 255) < linearPart (p.read c / 255)) ∧
        ((p.set c x).luma < c.luma → 100139 / 10000 < p.read c ∧ x < 100189 / 10000 ∧
          c.luma - (p.set c x).luma < 6 / 10 ^ 7) ∧
        ∀ n : ℕ, p.read c = n ∨ x = n → c.luma ≤ (p.set c x).luma) ∧
    (∀ (extreme : Extreme) (cs : List (Rgba ℝ)), cs ≠ [] →
      ∃ i d, Extreme.FirstAt (fun c e => extreme.Reaches c.luma e.luma) cs i d ∧
        extreme.select (cs.map Token.color) = .token (.color d)) ∧
    ∀ (c x y : Rgba ℝ) (t : ℝ), x.luma < y.luma →
      c.contrast x y t = (if c.luma < t then y else x) ∧ c.contrast x y t = c.contrast y x t := by
  refine ⟨?luma, fun extreme cs present => Extreme.exists_select_color extreme present, ?references⟩
  case luma =>
    intro c shown
    refine ⟨Rgba.luma_mem shown, fun p x le _ => ?_⟩
    have nonneg := p.read_nonneg shown
    exact ⟨(Rgba.luma_set_lt_iff p c x).trans (linearChannel_lt_iff nonneg le),
      Rgba.luma_loss p nonneg le, fun n => Rgba.luma_le_of_whole p nonneg le⟩
  case references =>
    intro c x y t less
    exact Rgba.contrast_swap_of_lt (fun _ _ => lt_asymm) less c t

/-- The tenth and the eleventh step of red stand on the two sides of the joint. -/
theorem brightening_steps :
    (⟨10, 20, 30, 1⟩ : Rgba ℝ).Displayable ∧
      (⟨10, 20, 30, 1⟩ : Rgba ℝ).luma ≤ (⟨11, 20, 30, 1⟩ : Rgba ℝ).luma ∧
      (∃ i d, Extreme.FirstAt (fun c e => Extreme.greatest.Reaches c.luma e.luma)
        [(⟨10, 20, 30, 1⟩ : Rgba ℝ), ⟨11, 20, 30, 1⟩] i d) ∧
      (⟨0, 0, 0, 1⟩ : Rgba ℝ).luma < (⟨255, 255, 255, 0⟩ : Rgba ℝ).luma ∧
      (⟨0, 0, 0, 1⟩ : Rgba ℝ).contrast ⟨0, 0, 0, 1⟩ ⟨255, 255, 255, 0⟩ 1 =
        (⟨0, 0, 0, 1⟩ : Rgba ℝ).contrast ⟨255, 255, 255, 0⟩ ⟨0, 0, 0, 1⟩ 1 := by
  have shown : (⟨10, 20, 30, 1⟩ : Rgba ℝ).Displayable := by constructor <;> norm_num
  have lighter : (⟨0, 0, 0, 1⟩ : Rgba ℝ).luma < (⟨255, 255, 255, 0⟩ : Rgba ℝ).luma := by
    have black : linearChannel (0 : ℝ) = 0 := by norm_num [linearChannel_eq, joint, linearPart]
    have white : linearChannel (255 : ℝ) = 1 := by norm_num [linearChannel_eq, joint, powerPart]
    norm_num [Rgba.luma_eq, black, white]
  have steps := ((brightening.1 _ shown).2 .red 11 (by norm_num [Primary.read]) (by norm_num)).2.2
  obtain ⟨i, d, first, _⟩ := brightening.2.1 .greatest
    [(⟨10, 20, 30, 1⟩ : Rgba ℝ), ⟨11, 20, 30, 1⟩] (by simp)
  exact ⟨shown, steps 11 (.inr (by norm_num)), ⟨i, d, first⟩, lighter,
    (brightening.2.2 _ _ _ 1 lighter).2⟩

/-- A red just below the joint is brighter than one just above it. -/
theorem brightening_darkens :
    ¬ ∀ c : Rgba ℝ, c.Displayable → ∀ (p : Primary) (x : ℝ), p.read c ≤ x → x ≤ 255 →
      c.luma ≤ (p.set c x).luma := by
  intro rises
  have shown : (⟨10016 / 1000, 0, 0, 1⟩ : Rgba ℝ).Displayable := by constructor <;> norm_num
  have raised : (10016 / 1000 : ℝ) ≤ 10017 / 1000 := by norm_num
  have less : powerPart (10017 / 1000 / 255) < linearPart (10016 / 1000 / 255) := by
    unfold linearPart
    rw [← not_le, le_powerPart_iff] <;> norm_num
  have crossed : (10016 / 1000 : ℝ) ≤ joint ∧ joint < 10017 / 1000 := by
    unfold joint
    norm_num
  have falls := (linearChannel_lt_iff (by norm_num) raised).mpr ⟨crossed.1, crossed.2, less⟩
  have darker := (Rgba.luma_set_lt_iff .red ⟨10016 / 1000, 0, 0, 1⟩ (10017 / 1000)).mpr falls
  exact absurd darker (not_lt.mpr (rises _ shown .red _ raised (by norm_num)))

end StyleFunctions
