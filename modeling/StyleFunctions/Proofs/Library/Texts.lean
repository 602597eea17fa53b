import StyleFunctions.Library.Standard
import StyleFunctions.Library.Texts
import StyleFunctions.Proofs.Text.Runs
import StyleFunctions.Scalar.Double

/-!
The functions on strings. `escape` and the capital placeholders of `%` lose nothing of what they
encode; `%` fills its template in one pass and then halves the runs of percent signs, those of the
values included. All this with any engine and any encoder that do what is relied on.
-/

namespace StyleFunctions.Library

open Percent (Encoder Faithful encodeText componentMarks escapeMarks lawful_encodeText)
open Search (Engine)
open Template (Outline Runs PlaceholdersOnly Apart Doubled outline collapse ownEngine
  lawful_ownEngine)

variable {α : Type}

theorem escape_call (encoder : Encoder) (context : Context α) (text : Text) :
    (escape encoder).call context [.string text] =
      .keyword (encoder escapeMarks text.content) := rfl

variable [Scalar α] [Numeral α] {engine : Engine} {encoder : Encoder}

/-- The written forms of the values that a template is filled with. -/
def writtenForms (arguments : List (Token α)) : List String := arguments.map Token.text

omit [Scalar α] [Numeral α] in
theorem template_format (finds : engine.Lawful) (encoder : Encoder) (template : String)
    (values : List String) :
    Template.format engine encoder template values =
      .ok (.ofList (collapse ((outline template.toList).filled encoder values))) := by
  obtain ⟨searcher, compiled, finds⟩ := Template.exists_searcher finds
  rw [Template.format, compiled]
  simp only [Template.fill_eq finds]

/-- What `%` answers, by the outline of its template. -/
theorem format_call (finds : engine.Lawful) (encoder : Encoder) (context : Context α)
    (template : Text) (arguments : List (Token α)) :
    (format engine encoder).call context (.string template :: arguments) =
      .string (template.requote (.ofList (collapse
        ((outline template.content.toList).filled encoder (writtenForms arguments))))) := by
  have enough : (Arity.atLeast 1).allows (.string template :: arguments : List (Token α)).length =
      true := by
    simp [Arity.allows]
  simp only [format, Builtin.standalone, Arguments.expect, enough, if_true, List.getElem?_cons_zero,
    Arguments.string, List.drop_succ_cons, List.drop_zero, template_format finds]
  rfl

/-- A capital placeholder alone is the encoded value: encoding leaves no signs for collapsing. -/
theorem format_capital (finds : engine.Lawful) (encodes : encoder.Lawful) {letter : Char}
    (capital : letter ∈ ['S', 'D', 'A']) (context : Context α) (quote : Option Char)
    (argument : Token α) :
    (format engine encoder).call context [.string ⟨.ofList ['%', letter], quote⟩, argument] =
      .string ⟨encoder componentMarks argument.text, quote⟩ := by
  have known : letter ∈ Template.letters ∧ 'A' ≤ letter ∧ letter ≤ 'Z' := by
    simp only [List.mem_cons, List.not_mem_nil, or_false] at capital
    rcases capital with rfl | rfl | rfl <;> decide
  have filled : (outline ['%', letter]).filled encoder [argument.text] =
      (encoder componentMarks argument.text).toList := by
    rw [outline, if_pos (Template.isPlaceholder_iff.mpr known.1), Outline.filled_mark]
    change Template.written encoder letter argument.text ++ [] = _
    rw [List.append_nil, Template.written, if_pos known.2]
  have single : ¬ Doubled (encoder componentMarks argument.text).toList :=
    (Template.apart_of_encoded Template.percent_not_mark
      (Template.encoded_component encodes _)).not_doubled
  rw [format_call finds, String.toList_ofList]
  change Value.string ⟨.ofList (collapse ((outline ['%', letter]).filled encoder
    [argument.text])), quote⟩ = _
  rw [filled, Template.collapse_eq_self_iff.mpr single, String.ofList_toList]

/-- Percent-encoding loses nothing, neither that of `escape` nor that of the capital placeholders,
and what `escape` answers can stand where the signs that it encodes would mean something. -/
theorem encoders_lossless (finds : engine.Lawful) (encodes : encoder.Lawful)
    (context : Context α) :
    (∀ text : Text, (escape encoder).call context [.string text] =
      .keyword (encoder escapeMarks text.content)) ∧
    (∀ letter ∈ ['S', 'D', 'A'], ∀ (quote : Option Char) (argument : Token α),
      (format engine encoder).call context [.string ⟨.ofList ['%', letter], quote⟩, argument] =
        .string ⟨encoder componentMarks argument.text, quote⟩) ∧
    Faithful [',', '/', '?', '@', '&', '+', '$', '-', '_', '.', '!', '~', '*', '\'']
      (encoder escapeMarks) ∧
    Faithful ['-', '_', '.', '!', '~', '*', '\'', '(', ')'] (encoder componentMarks) ∧
    ∀ text : String, ∀ c ∈ [' ', '"', '=', ':', '#', ';', '(', ')'],
      c ∉ (encoder escapeMarks text).toList := by
  have escaped : Faithful escapeMarks (encoder escapeMarks) :=
    encodes.faithful Percent.ascii_escapeMarks (by decide)
  have component : Faithful componentMarks (encoder componentMarks) :=
    encodes.faithful Percent.ascii_componentMarks Template.percent_not_mark
  refine ⟨escape_call encoder context, fun letter capital => format_capital finds encodes capital
    context, escaped, component, ?_⟩
  have reserved : [' ', '"', '=', ':', '#', ';', '(', ')'].all (fun c =>
      !decide (c.isAlphanum = true ∨ c ∈ escapeMarks ∨ c = '%')) = true := by decide
  intro text c listed member
  have other := List.all_eq_true.mp reserved c listed
  simp only [(escaped.encoded text).mem member, decide_true, Bool.not_true] at other
  cases other

/-- A percent sign is encoded itself, and no blank is left. -/
theorem encoders_lossless_samples :
    ownEngine.Lawful ∧ Encoder.Lawful encodeText ∧ 'S' ∈ ['S', 'D', 'A'] ∧
      (format ownEngine encodeText).call .standard
          [.string ⟨.ofList ['%', 'S'], some '"'⟩, (.keyword "50%" : Token Float)] =
        .string ⟨encodeText componentMarks "50%", some '"'⟩ ∧
      ' ' ∉ (encodeText escapeMarks "50% off").toList ∧
      encodeText escapeMarks "50% off" = "50%25%20off" := by
  obtain ⟨_, capital, _, _, reserved⟩ :=
    encoders_lossless lawful_ownEngine lawful_encodeText (.standard : Context Float)
  have letter : 'S' ∈ ['S', 'D', 'A'] := by decide
  refine ⟨lawful_ownEngine, lawful_encodeText, letter, capital 'S' letter (some '"') (.keyword "50%"),
    ?_, ?_⟩
  · exact reserved "50% off" ' ' (by decide)
  · rfl

/-- A template is filled in one pass. Its placeholders are the percent signs before one of the
letters, those that have a value are replaced, in order, and what is put in is not searched. Then
every run of percent signs is halved, rounding up, and all else stays. -/
theorem format_single_pass (finds : engine.Lawful) (encoder : Encoder) (context : Context α)
    (template : Text) (arguments : List (Token α)) :
    (outline template.content.toList).IsOf template.content.toList ∧
    ∃ runs : Runs,
      (∀ other : Runs, other.text =
          (outline template.content.toList).filled encoder (writtenForms arguments) ↔
        other = runs) ∧
      (format engine encoder).call context (.string template :: arguments) =
        .string (template.requote (.ofList runs.halved.text)) := by
  refine ⟨Template.isOf_outline _, ?_⟩
  obtain ⟨runs, text⟩ := Template.exists_runs
    ((outline template.content.toList).filled encoder (writtenForms arguments))
  refine ⟨runs, fun other => ⟨fun same => ?_, fun same => ?_⟩, ?_⟩
  · exact Runs.text_inj (same.trans text.symm)
  · rw [same, text]
  · rw [format_call finds, ← text, Template.collapse_text]

/-- A run of three signs before a placeholder, a value that looks like one, and a placeholder that is
left over. -/
theorem format_single_pass_runs :
    let template : Text := ⟨"%%%s-%\u017f-%a", some '"'⟩
    let arguments : List (Token Float) := [.keyword "%d", .keyword "x"]
    ownEngine.Lawful ∧
      (format ownEngine encodeText).call .standard (.string template :: arguments) =
        .string ⟨"%%d-x-%a", some '"'⟩ := by
  intro template arguments
  obtain ⟨_, runs, only, answer⟩ :=
    format_single_pass lawful_ownEngine encodeText .standard template arguments
  have filled : (outline template.content.toList).filled encodeText (writtenForms arguments) =
      "%%%d-x-%a".toList := by decide
  let expected : Runs :=
    ⟨3, [⟨'d', 0, by decide⟩, ⟨'-', 0, by decide⟩, ⟨'x', 0, by decide⟩, ⟨'-', 1, by decide⟩,
      ⟨'a', 0, by decide⟩]⟩
  have known : expected = runs := (only expected).mp (filled ▸ rfl)
  have halved : expected.halved.text = "%%d-x-%a".toList := by decide
  rw [answer, ← known, halved, String.ofList_toList]
  exact ⟨lawful_ownEngine, rfl⟩

/-- In a template whose percent signs all begin placeholders the values stay what they are, as long
as no two percent signs come to stand side by side, as when each one in a value has another
character behind it. Elsewhere runs are halved, whether their signs come from the template or from a
value. -/
theorem format_keeps_values (finds : engine.Lawful) (encodes : encoder.Lawful)
    (context : Context α) (template : Text) (arguments : List (Token α))
    (placed : PlaceholdersOnly template.content.toList) :
    let filled := (outline template.content.toList).filled encoder (writtenForms arguments)
    (outline template.content.toList).IsOf template.content.toList ∧
    (∃ runs : Runs, runs.text = filled ∧
      (format engine encoder).call context (.string template :: arguments) =
        .string (template.requote (.ofList runs.halved.text))) ∧
    ((format engine encoder).call context (.string template :: arguments) =
        .string (template.requote (.ofList filled)) ↔ ¬ Doubled filled) ∧
    ((∀ argument ∈ arguments, Apart argument.text.toList) → ¬ Doubled filled) := by
  intro filled
  have answer : (format engine encoder).call context (.string template :: arguments) =
      .string (template.requote (.ofList (collapse filled))) := by
    rw [format_call finds]
  refine ⟨Template.isOf_outline _, ?_, ?_, fun apart => ?_⟩
  · obtain ⟨runs, text⟩ := Template.exists_runs filled
    exact ⟨runs, text, by rw [answer, ← text, Template.collapse_text]⟩
  · rw [answer, ← Template.collapse_eq_self_iff]
    constructor
    · intro same
      have content := congrArg Text.content (Token.string.inj (Value.token.inj same))
      exact String.ofList_inj.mp content
    · intro same
      rw [same]
  · have values : ∀ value ∈ writtenForms arguments, Apart value.toList := by
      intro value member
      obtain ⟨argument, given, rfl⟩ := List.mem_map.mp member
      exact apart argument given
    exact (Template.apart_filled encodes placed values).not_doubled

/-- One percent sign in a value stays, also when it is encoded. -/
theorem format_keeps_values_discount :
    let template : Text := ⟨"%s|%S|%d", some '"'⟩
    let arguments : List (Token Float) := [.keyword "5%x", .keyword "5%"]
    ownEngine.Lawful ∧ Encoder.Lawful encodeText ∧ PlaceholdersOnly template.content.toList ∧
      (format ownEngine encodeText).call .standard (.string template :: arguments) =
        .string ⟨"5%x|5%25|%d", some '"'⟩ := by
  intro template arguments
  have placed : PlaceholdersOnly template.content.toList := by decide
  refine ⟨lawful_ownEngine, lawful_encodeText, placed, ?_⟩
  have filled : (outline template.content.toList).filled encodeText (writtenForms arguments) =
      "5%x|5%25|%d".toList := by decide
  have kept := (format_keeps_values lawful_ownEngine lawful_encodeText .standard template arguments
    placed).2.2.1
  rw [filled, String.ofList_toList] at kept
  exact kept.mpr (by decide)

/-- Of two percent signs in a value one is lost. -/
theorem format_loses_sign :
    ownEngine.Lawful ∧ Encoder.Lawful encodeText ∧ PlaceholdersOnly "%s".toList ∧
      (outline "%s".toList).filled encodeText (writtenForms [(.keyword "%%" : Token Float)]) =
        ['%', '%'] ∧
      (format ownEngine encodeText).call .standard
          [.string ⟨"%s", none⟩, (.keyword "%%" : Token Float)] =
        .string ⟨"%", none⟩ := by
  refine ⟨lawful_ownEngine, lawful_encodeText, ?_, ?_, ?_⟩
  · decide
  · decide
  · rfl

end StyleFunctions.Library
