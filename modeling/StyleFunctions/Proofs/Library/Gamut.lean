import StyleFunctions.Proofs.Color.Gamut
import StyleFunctions.Proofs.Color.Keyword
import StyleFunctions.Proofs.Library.Roles

/-!
Runs of calls over the real numbers, in which earlier answers are given to later calls. Every color that
comes up is in the gamut.
-/

namespace StyleFunctions

open scoped Exact
open Exact (literal literal_fraction)
open Library

namespace Token

/-- A token that is no color outside the gamut. -/
def InGamut (t : Token ℝ) : Prop := ∀ c, t = .color c → c.InGamut

theorem inGamut_color {c : Rgba ℝ} (inside : c.InGamut) : (Token.color c).InGamut := by
  rintro _ ⟨⟩
  exact inside

theorem inGamut_of_color? {t : Token ℝ} (none : t.color? = none) : t.InGamut := by
  rintro c rfl
  cases none

end Token

/-- A call that does not ask for a color outside the gamut: it is none of the functions that take every
channel as it is given, and the weight of a mixture is a fraction. -/
structure Permitted (name : String) (arguments : List (Token ℝ)) : Prop where
  restricted : name ∉ ["rgb", "rgba", "hsv", "hsva"]
  weight : ∀ place, weightPlace? name = some place →
    ∀ d : Dimension ℝ, arguments[place]? = some (.number d) → d.fraction ∈ Set.Icc (0 : ℝ) 1

variable {context : Context ℝ} {name : String} {arguments : List (Token ℝ)} {t : Token ℝ}

theorem inGamut_of_offered {c : Rgba ℝ} (given : ∀ t ∈ arguments, t.InGamut)
    (offered : Offered arguments c) : c.InGamut := by
  rcases offered with rfl | rfl | member
  · exact Rgba.white_inGamut
  · exact Rgba.black_inGamut
  · exact given _ member c rfl

/-- One call, by where its answer comes from. -/
theorem inGamut_of_yields (resolver : ∀ word c, context.resolveColor word = some c → c.InGamut)
    (permitted : Permitted name arguments) (given : ∀ t ∈ arguments, t.InGamut)
    (yields : Yields name context arguments t) : t.InGamut := by
  cases yields with
  | plain none => exact Token.inGamut_of_color? none
  | argument member => exact given t member
  | offered offered => exact Token.inGamut_color (inGamut_of_offered given offered)
  | resolved known => exact Token.inGamut_color (resolver _ _ known)
  | @made maker x y z alpha named =>
      apply Token.inGamut_color
      obtain ⟨model, takesAlpha⟩ := maker
      have restricted := permitted.restricted
      rw [← named] at restricted
      cases model with
      | hsl => exact Hsl.toRgba_inGamut _
      | rgb => cases takesAlpha <;> simp [ColorMaker.name] at restricted
      | hsv => cases takesAlpha <;> simp [ColorMaker.name] at restricted
  | adjusted adjustment amount _ => exact Token.inGamut_color (adjustment.apply_inGamut _ amount)
  | @mixed c d weight place left right placed taken =>
      have part : weight ∈ Set.Icc (0 : ℝ) 1 := by
        rcases taken with rfl | ⟨w, there, rfl⟩
        · rw [literal_fraction]
          norm_num
        · exact permitted.weight place placed w there
      exact Token.inGamut_color
        (Rgba.mix_inGamut (inGamut_of_offered given left) (inGamut_of_offered given right) part)
  | blended mode left right =>
      exact Token.inGamut_color (mode.blend_inGamut (given _ left _ rfl) (given _ right _ rfl))

/-- The answers of a run of calls, in order. A call may be given any tokens that are no colors, any
colors of the gamut, and whatever was answered before. -/
inductive Run [Numeral ℝ] (context : Context ℝ) : List (Value ℝ) → Prop where
  | start : Run context []
  | call {answers : List (Value ℝ)} {name : String} {arguments : List (Token ℝ)} :
      Run context answers → Permitted name arguments →
      (∀ t ∈ arguments, t.InGamut ∨ .token t ∈ answers) →
      Run context (answers ++ [evaluate context name arguments])

/-- No run leaves the gamut, whatever the numbers are that its calls are given. -/
theorem run_inGamut [Numeral ℝ] {answers : List (Value ℝ)}
    (resolver : ∀ word c, context.resolveColor word = some c → c.InGamut)
    (run : Run context answers) : ∀ c, Value.color c ∈ answers → c.InGamut := by
  induction run with
  | start =>
      intro c member
      cases member
  | @call answers name arguments _ permitted given ih =>
      have inside : ∀ t ∈ arguments, t.InGamut := by
        intro t member
        rcases given t member with fresh | answered
        · exact fresh
        · rintro c rfl
          exact ih c answered
      intro c member
      rcases List.mem_append.mp member with earlier | last
      · exact ih c earlier
      · have answer : evaluate context name arguments = .token (.color c) :=
          (List.mem_singleton.mp last).symm
        exact inGamut_of_yields resolver permitted inside (yields_of_evaluate answer) c rfl

/-- With the colors of a style sheet: black is tinted by three tenths, and the answer multiplied with
white. -/
theorem run_inGamut_tinted :
    let _ : Numeral ℝ := ⟨fun x => toString ⌊x⌋⟩
    let amount : Dimension ℝ := .percent 30
    let tinted : Rgba ℝ := Rgba.white.mix .black amount.fraction
    let laid : Rgba ℝ := BlendMode.multiply.blend tinted .white
    (∀ word c, (Context.standard : Context ℝ).resolveColor word = some c → c.InGamut) ∧
    Run .standard [.color tinted, .color laid] ∧ tinted.InGamut ∧ laid.InGamut := by
  intro _ amount tinted laid
  have resolver : ∀ word c, (Context.standard : Context ℝ).resolveColor word = some c → c.InGamut :=
    fun _ _ => ColorKeyword.resolve_inGamut
  have first : evaluate .standard "tint" [.color .black, .number amount] = .color tinted := by
    have member : (tint : Builtin ℝ) ∈ (standardRegistry : Registry ℝ).builtins :=
      mem_standardRegistry.mpr ⟨.colors, by simp [Collection.builtins, colors]⟩
    exact (evaluate_of_mem member).trans mixWith_call
  have second : evaluate .standard "multiply" [.color tinted, .color .white] = .color laid := by
    have member : (blend .multiply : Builtin ℝ) ∈ (standardRegistry : Registry ℝ).builtins :=
      mem_standardRegistry.mpr ⟨.colors, by simp [Collection.builtins, colors, BlendMode.all]⟩
    exact (evaluate_of_mem member).trans blend_call
  have tints : Permitted "tint" [.color .black, .number amount] := by
    refine ⟨by decide, fun place placed d there => ?_⟩
    cases placed
    cases there
    have share : amount.fraction = 30 / 100 := by
      simp only [amount, Dimension.fraction, Dimension.percent, literal]
      rfl
    rw [share]
    norm_num
  have multiplies : Permitted "multiply" [.color tinted, .color .white] := by
    refine ⟨by decide, fun place placed => ?_⟩
    cases placed
  have run : Run .standard [.color tinted, .color laid] := by
    have nothing : Run Context.standard [] := .start
    have started := Run.call nothing tints ?_
    · rw [first] at started
      have ended := Run.call started multiplies ?_
      · rwa [second] at ended
      · -- The first color was answered before, the second is new.
        refine List.forall_mem_cons.mpr ⟨.inr (List.mem_singleton_self _), ?_⟩
        exact List.forall_mem_singleton.mpr (.inl (Token.inGamut_color Rgba.white_inGamut))
    · refine List.forall_mem_cons.mpr ⟨.inl (Token.inGamut_color Rgba.black_inGamut), ?_⟩
      exact List.forall_mem_singleton.mpr (.inl (Token.inGamut_of_color? rfl))
  have inside := run_inGamut resolver run
  exact ⟨resolver, run, inside tinted (by simp), inside laid (by simp)⟩

end StyleFunctions
