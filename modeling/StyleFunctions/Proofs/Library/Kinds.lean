import StyleFunctions.Library.Standard
import StyleFunctions.Proofs.Color.Parser
import StyleFunctions.Scalar.Double

/-!
Which strings are colors. `iscolor` and `color` ask the same question of a string, and where colors
are known by name and by hexadecimal digits the answer is told by the letters of the string.
-/

namespace StyleFunctions.Library

open ColorKeyword (IsHexLiteral IsName IsHexWord Parser ownParser readsLiterals_ownParser
  readsWords_ownParser)

variable {α : Type} {context : Context α} {text : Text}

theorem isColor_string (context : Context α) (text : Text) :
    (kindTest .isColor).call context [.string text] =
      .bool (context.resolveColor text.content).isSome := rfl

theorem color_known {c : Rgba α} (known : context.resolveColor text.content = some c) :
    color.call context [.string text] = .color c := by
  change Value.ofExcept (asColor context (.string text)) = _
  rw [asColor, known]
  rfl

theorem color_unknown (unknown : context.resolveColor text.content = none) :
    color.call context [.string text] = .error Fault.unknownColor.report := by
  change Value.ofExcept (asColor context (.string text)) = _
  rw [asColor, unknown]
  rfl

/-- `color` answers a color exactly for the strings that `iscolor` accepts, and the report of an
unknown color for all others. -/
theorem color_string (context : Context α) (text : Text) :
    ((∃ c, color.call context [.string text] = .color c) ↔
      (context.resolveColor text.content).isSome = true) ∧
    (color.call context [.string text] = .error Fault.unknownColor.report ↔
      ¬ (context.resolveColor text.content).isSome = true) := by
  cases resolved : context.resolveColor text.content with
  | some c =>
      rw [color_known resolved]
      exact ⟨iff_of_true ⟨c, rfl⟩ rfl, iff_of_false nofun (not_not_intro rfl)⟩
  | none =>
      rw [color_unknown resolved]
      exact ⟨iff_of_false nofun nofun, iff_of_true rfl nofun⟩

variable [Scalar α]

/-- A string is a color when it is a literal with a number sign or one of the names, but also when
it is a word of three, four, six or eight letters that are hexadecimal digits, and none of these
words is a literal or a name. For all other strings `iscolor` is false and `color` reports an
unknown color. -/
theorem color_words {parser : Parser} (literals : parser.ReadsLiterals) (words : parser.ReadsWords)
    (text : Text) :
    let context : Context α := .reading parser
    let known := IsHexLiteral text.content.toList ∨ IsName text.content.toList
    let accepted := known ∨ IsHexWord text.content.toList
    ((context.resolveColor text.content).isSome = true ↔ accepted) ∧
    (((context.resolveColor text.content).isSome = true ↔ known) ↔
      ¬ IsHexWord text.content.toList) ∧
    ((kindTest .isColor).call context [.string text] = .bool true ↔ accepted) ∧
    ((kindTest .isColor).call context [.string text] = .bool false ↔ ¬ accepted) ∧
    ((∃ c : Rgba α, color.call context [.string text] = .color c) ↔ accepted) ∧
    (color.call context [.string text] = .error Fault.unknownColor.report ↔ ¬ accepted) := by
  intro context known accepted
  have resolved : (context.resolveColor text.content).isSome = true ↔ accepted :=
    ColorKeyword.isSome_resolve_iff literals words text.content
  have apart (word : IsHexWord text.content.toList) : ¬ known := by
    rintro (⟨digits, literal, _⟩ | name)
    · have letter := word.alpha '#' (literal ▸ List.mem_cons_self ..)
      exact absurd letter (by decide)
    · exact word.not_name name
  obtain ⟨answered, refused⟩ := color_string context text
  refine ⟨resolved, ?_, ?_, ?_, answered.trans resolved, refused.trans (not_congr resolved)⟩
  · rw [resolved]
    constructor
    · intro same word
      exact apart word (same.mp (.inr word))
    · intro other
      exact or_iff_left other
  · rw [isColor_string, Value.bool.injEq, resolved]
  · rw [isColor_string, Value.bool.injEq, ← Bool.not_eq_true, resolved]

/-- A name is a color in letters of either case, and a longer word is none. -/
theorem color_words_tan :
    Parser.ReadsLiterals ownParser ∧ Parser.ReadsWords ownParser ∧
      (kindTest .isColor).call (.standard : Context Float) [.keyword "TaN"] = .bool true ∧
      color.call (.standard : Context Float) [.keyword "tango"] =
        .error Fault.unknownColor.report := by
  have name : IsName "TaN".toList := ⟨"tan", by decide +kernel, by decide⟩
  have unknown : ¬ ((IsHexLiteral "tango".toList ∨ IsName "tango".toList) ∨
      IsHexWord "tango".toList) := by
    rintro ((⟨digits, same, _⟩ | name) | word)
    · cases same
    · exact absurd (ColorKeyword.isName_iff.mp name) (by decide +kernel)
    · exact absurd word (by decide)
  have known :=
    color_words (α := Float) readsLiterals_ownParser readsWords_ownParser ⟨"TaN", none⟩
  have refused :=
    color_words (α := Float) readsLiterals_ownParser readsWords_ownParser ⟨"tango", none⟩
  exact ⟨readsLiterals_ownParser, readsWords_ownParser, known.2.2.1.mpr (.inl (.inr name)),
    refused.2.2.2.2.2.mpr unknown⟩

/-- A word of four letters is no color literal and no name, and stands for a color all the same. -/
theorem hex_word_is_color :
    Parser.ReadsLiterals ownParser ∧ Parser.ReadsWords ownParser ∧
      ¬ IsHexLiteral "fade".toList ∧ ¬ IsName "fade".toList ∧
      (Context.standard : Context Float).resolveColor "fade" =
        some (ColorKeyword.ofBytes 255 170 221 238) ∧
      (kindTest .isColor).call (.standard : Context Float) [.keyword "fade"] = .bool true := by
  refine ⟨readsLiterals_ownParser, readsWords_ownParser, ?_, ?_, ?_, ?_⟩
  · rintro ⟨digits, same, _⟩
    cases same
  · exact IsHexWord.not_name (by decide)
  · rfl
  · rfl

end StyleFunctions.Library
