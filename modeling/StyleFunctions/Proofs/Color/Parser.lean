import StyleFunctions.Color.Parser
import StyleFunctions.Proofs.Color.Word

/-! The parser to run programs with does what is relied on. -/

namespace StyleFunctions.ColorKeyword

variable {cs : List Char}

theorem ofHex?_digits (all : ∀ c ∈ cs, Hex.IsDigit c) :
    ofHex? cs = ofDigits? (cs.map Hex.value) := by
  rw [ofHex?, Hex.values_digits all, Option.bind_some]

theorem isSome_ofHex?_iff :
    (ofHex? cs).isSome = true ↔ cs.length ∈ [3, 4, 6, 8] ∧ ∀ c ∈ cs, Hex.IsDigit c := by
  have count (digits : List Nat) :
      (ofDigits? digits).isSome = true ↔ digits.length ∈ [3, 4, 6, 8] := by
    match digits with
    | [] | [_] | [_, _] | [_, _, _] | [_, _, _, _] | [_, _, _, _, _] | [_, _, _, _, _, _]
    | [_, _, _, _, _, _, _] | [_, _, _, _, _, _, _, _] => simp [ofDigits?]
    | _ :: _ :: _ :: _ :: _ :: _ :: _ :: _ :: _ :: _ => simp [ofDigits?]
  have digits : (∀ c ∈ cs, Hex.IsDigit c) ↔ (cs.mapM Hex.value?).isSome = true := by
    simp only [isSome_mapM_iff, Hex.isSome_value?_iff]
  rw [digits, ofHex?]
  cases values : cs.mapM Hex.value? with
  | none => simp
  | some ns =>
      rw [Option.bind_some, count, length_of_mapM values, Option.isSome_some, and_iff_left rfl]

theorem isSome_ofName?_iff {name : String} : (ofName? name).isSome = true ↔ name ∈ names := by
  rw [ofName?, names, List.mem_cons]
  split
  case isTrue clear => exact iff_of_true rfl (.inl clear)
  case isFalse other =>
    rw [Option.isSome_map, List.lookup_isSome_iff, List.mem_map, or_iff_right other]
    refine exists_congr fun entry => and_congr_right fun _ => ?_
    rw [beq_iff_eq, eq_comm]

theorem ownParser_literal (digits : List Char) :
    ownParser (.ofList ('#' :: digits)) = ofHex? digits := by
  simp only [ownParser, String.toList_ofList]

theorem ownParser_other (other : cs.head? ≠ some '#') :
    ownParser (.ofList cs) = (ofHex? cs).or (ofName? (.ofList (cs.map Char.toLower))) := by
  rw [ownParser, String.toList_ofList]
  split
  case h_1 => exact absurd rfl other
  case h_2 => rfl

theorem readsLiterals_ownParser : Parser.ReadsLiterals ownParser where
  short r g b all := by
    rw [ownParser_literal, ofHex?_digits all]
    rfl
  shortAlpha r g b a all := by
    rw [ownParser_literal, ofHex?_digits all]
    rfl
  long r r' g g' b b' all := by
    rw [ownParser_literal, ofHex?_digits all]
    rfl
  longAlpha r r' g g' b b' a a' all := by
    rw [ownParser_literal, ofHex?_digits all]
    rfl

/-- A word does not begin with a number sign. -/
theorem head?_ne_sign {p : Char → Prop} (all : ∀ c ∈ cs, p c) (sign : ¬ p '#') :
    cs.head? ≠ some '#' := fun first => sign (all '#' (List.mem_of_mem_head? first))

theorem readsWords_ownParser : Parser.ReadsWords ownParser where
  name word name := by
    rw [ownParser_other (head?_ne_sign name.alpha (by decide)), Option.isSome_or, Bool.or_eq_true]
    exact .inr (isSome_ofName?_iff.mpr (isName_iff.mp name))
  bare digits length all := by
    have read : (ofHex? digits).isSome = true := isSome_ofHex?_iff.mpr ⟨length, all⟩
    rw [ownParser_other (head?_ne_sign all (by decide)), ownParser_literal,
      Option.or_of_isSome read]
  other word alpha name digits := by
    rw [ownParser_other (head?_ne_sign alpha (by decide)), Option.or_eq_none_iff,
      ← Option.not_isSome_iff_eq_none, ← Option.not_isSome_iff_eq_none, isSome_ofHex?_iff,
      isSome_ofName?_iff, ← isName_iff, ← isHexWord_iff alpha]
    exact ⟨digits, name⟩

end StyleFunctions.ColorKeyword
