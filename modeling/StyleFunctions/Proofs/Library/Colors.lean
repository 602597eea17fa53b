import StyleFunctions.Proofs.Library.Regular

/-!
The functions on colors are regular, but for the two that may be filters of the style sheet: `saturate`
and `contrast` answer as the others do when they begin with a color.
-/

namespace StyleFunctions

variable {α : Type}

/-- Whatever the threshold, one of the two references is chosen. -/
theorem Rgba.contrast_eq_or [Elementary α] (c dark light : Rgba α) (threshold : α) :
    c.contrast dark light threshold = dark ∨ c.contrast dark light threshold = light := by
  unfold Rgba.contrast
  by_cases reversed : light.luma < dark.luma
  · rw [if_pos reversed]
    dsimp only
    split
    · exact .inl rfl
    · exact .inr rfl
  · rw [if_neg reversed]
    dsimp only
    split
    · exact .inr rfl
    · exact .inl rfl

namespace ColorMaker

open Arguments

variable [Scalar α] {arguments : List (Token α)}

theorem arity_signature (maker : ColorMaker) : maker.signature.arity = maker.arity := by
  rcases maker with ⟨_ | _ | _, _ | _⟩ <;> rfl

theorem counts_make (maker : ColorMaker) :
    Counts (maker.arity.allows arguments.length)
      (fun c => ∃ x y z alpha, c = build maker.model x y z alpha) (maker.make arguments) := by
  apply (counts_expect maker.arity).bind
  intro _ _
  apply settles_fractionOr.bind
  intro alpha _
  apply settles_number.bind
  intro x _
  apply settles_number.bind
  intro y _
  apply settles_number.bind
  intro z _
  exact .pure ⟨x, y, z, alpha, rfl⟩

end ColorMaker

namespace Library

open Arguments

variable [Elementary α] {context : Context α} {arguments : List (Token α)}

theorem regular_maker (maker : ColorMaker) : Regular (maker.builtin : Builtin α) := by
  apply regular_of_counts
  intro context arguments
  rw [maker.arity_signature]
  apply maker.counts_make.map
  rintro c ⟨x, y, z, alpha, rfl⟩
  exact answers_token (.made x y z alpha rfl)

theorem counts_adjusted (adjustment : Adjustment) :
    Counts ((Arity.exactly 2).allows arguments.length)
      (fun v => v.report? = none ∧ Answers adjustment.name context arguments v)
      (adjusted adjustment arguments) := by
  apply (counts_expect (.exactly 2)).bind
  intro _ _
  apply settles_color.bind
  intro c first
  apply settles_number.bind
  intro amount _
  exact .pure (answers_token (.adjusted adjustment _ (mem_of_place first)))

theorem arity_adjustment (adjustment : Adjustment) :
    (adjustmentSignature adjustment).arity = .exactly 2 := by
  cases adjustment <;> rfl

theorem regular_adjust {adjustment : Adjustment} (other : adjustment ≠ .saturate) :
    Regular (adjust adjustment : Builtin α) := by
  apply regular_of_counts
  intro context arguments
  rw [arity_adjustment, if_neg (fun filter => other filter.1)]
  exact counts_adjusted adjustment

theorem outcome_saturate (context : Context α) (first : startsWithColor arguments = true) :
    Outcome ((Arity.exactly 2).allows arguments.length) (Answers "saturate" context arguments)
      ((adjust .saturate).call context arguments) := by
  apply Outcome.ofExcept
  dsimp only
  rw [if_neg (by simp [first])]
  exact counts_adjusted .saturate

theorem saturate_filter (first : startsWithColor arguments = false) :
    (adjust .saturate).call context arguments = .unresolved := by
  simp only [adjust, Builtin.standalone, first]
  rfl

theorem regular_greyscale : Regular (greyscale : Builtin α) := by
  apply regular_of_counts
  intro context arguments
  apply (counts_expect (.exactly 1)).bind
  intro _ _
  apply settles_color.bind
  intro c first
  exact .pure (answers_token (.adjusted .desaturate 1 (mem_of_place first)))

theorem regular_mix : Regular (mix : Builtin α) := by
  apply regular_of_counts
  intro context arguments
  apply (counts_expect (.between 2 3)).bind
  intro _ _
  apply settles_color.bind
  intro c first
  apply settles_color.bind
  intro d second
  apply settles_fractionOr.bind
  intro weight given
  exact .pure (answers_token (.mixed (.of_place first) (.of_place second) rfl given))

/-- The mixtures with a reference color. -/
theorem regular_mixWith {name description sample : String} {reference : Rgba α}
    (place : weightPlace? name = some 1) (offered : reference = .white ∨ reference = .black) :
    Regular (mixWith reference (mixWithSignature name description sample)) := by
  apply regular_of_counts
  intro context arguments
  apply (counts_expect (.between 1 2)).bind
  intro _ _
  apply settles_color.bind
  intro c first
  apply settles_fractionOr.bind
  intro weight given
  have chosen : Offered arguments reference := offered.imp_right .inl
  exact .pure (answers_token (.mixed chosen (.of_place first) place given))

theorem mixWith_call {reference c : Rgba α} {signature : Signature} {amount : Dimension α} :
    (mixWith reference signature).call context [.color c, .number amount] =
      .color (reference.mix c amount.fraction) :=
  rfl

omit [Elementary α] in
theorem counts_onlyColor {name : String} :
    Counts ((Arity.exactly 1).allows arguments.length) (fun c => .color c ∈ arguments)
      (onlyColor name arguments) := by
  apply (counts_expect (.exactly 1)).bind
  intro _ _
  exact settles_color.mono fun c first => mem_of_place first

theorem regular_luma : Regular (luma : Builtin α) := by
  apply regular_of_counts
  intro context arguments
  apply counts_onlyColor.bind
  intro c _
  exact .pure (answers_number _)

theorem regular_argb : Regular (argb : Builtin α) := by
  apply regular_of_counts
  intro context arguments
  apply counts_onlyColor.bind
  intro c _
  exact .pure (answers_string _)

theorem regular_channel (c : Channel) : Regular (channel c : Builtin α) := by
  apply regular_of_counts
  intro context arguments
  apply counts_onlyColor.bind
  intro color _
  exact .pure (answers_number _)

theorem outcome_contrast (context : Context α) (first : startsWithColor arguments = true) :
    Outcome ((Arity.between 1 4).allows arguments.length) (Answers "contrast" context arguments)
      (contrast.call context arguments) := by
  apply Outcome.ofExcept
  dsimp only
  rw [if_pos first]
  apply (counts_expect (.between 1 4)).bind
  intro _ _
  apply settles_color.bind
  intro c _
  apply settles_colorOr.bind
  intro dark isDark
  apply settles_colorOr.bind
  intro light isLight
  apply settles_fractionOr.bind
  intro threshold _
  have offered : Offered arguments (c.contrast dark light threshold) := by
    have darkOffered : Offered arguments dark :=
      isDark.elim (fun same => .inr (.inl same)) .of_place
    have lightOffered : Offered arguments light := isLight.imp_right fun given =>
      .inr (mem_of_place given)
    rcases Rgba.contrast_eq_or c dark light threshold with same | same <;> rw [same] <;> assumption
  exact .pure (answers_token (.offered offered))

theorem contrast_filter (first : startsWithColor arguments = false) :
    contrast.call context arguments = .unresolved := by
  simp only [contrast, Builtin.standalone, first]
  rfl

theorem regular_blend (mode : BlendMode) : Regular (blend mode : Builtin α) := by
  apply regular_of_counts
  intro context arguments
  apply (counts_expect (.exactly 2)).bind
  intro _ _
  apply settles_color.bind
  intro c first
  apply settles_color.bind
  intro d second
  exact .pure (answers_token (.blended mode (mem_of_place first) (mem_of_place second)))

theorem blend_call {mode : BlendMode} {c d : Rgba α} :
    (blend mode).call context [.color c, .color d] = .color (mode.blend c d) :=
  rfl

end Library

end StyleFunctions
