import StyleFunctions.Color.Keyword
import StyleFunctions.Color.Named
import StyleFunctions.Proofs.Decimal.Encoded
import StyleFunctions.Proofs.Reading
import StyleFunctions.Proofs.Text.Solid

/-!
The texts that stand for colors: literals with a number sign, names, and besides them the words that
happen to be made of hexadecimal digits. What is relied on of a parser is how it reads these three
forms, and that it reads no other word.
-/

namespace StyleFunctions

namespace Hex

/-- A hexadecimal digit, in either case. -/
def IsDigit (c : Char) : Prop := '0' ≤ c ∧ c ≤ '9' ∨ 'a' ≤ c ∧ c ≤ 'f' ∨ 'A' ≤ c ∧ c ≤ 'F'

instance (c : Char) : Decidable (IsDigit c) := inferInstanceAs (Decidable (_ ∨ _))

/-- A hexadecimal digit that is a letter. -/
def IsLetter (c : Char) : Prop := 'a' ≤ c ∧ c ≤ 'f' ∨ 'A' ≤ c ∧ c ≤ 'F'

instance (c : Char) : Decidable (IsLetter c) := inferInstanceAs (Decidable (_ ∨ _))

variable {c : Char}

theorem isDigit_iff_toNat :
    IsDigit c ↔ 48 ≤ c.toNat ∧ c.toNat ≤ 57 ∨ 97 ≤ c.toNat ∧ c.toNat ≤ 102 ∨
      65 ≤ c.toNat ∧ c.toNat ≤ 70 := Iff.rfl

theorem isLetter_iff_toNat :
    IsLetter c ↔ 97 ≤ c.toNat ∧ c.toNat ≤ 102 ∨ 65 ≤ c.toNat ∧ c.toNat ≤ 70 := Iff.rfl

theorem isLetter_iff : IsLetter c ↔ c.isAlpha = true ∧ IsDigit c := by
  rw [isLetter_iff_toNat, isDigit_iff_toNat, Text.isAlpha_iff_toNat]
  omega

theorem isDigit_toLower : IsDigit c.toLower ↔ IsDigit c := by
  rw [isDigit_iff_toNat, isDigit_iff_toNat, Text.toNat_toLower]
  split <;> omega

theorem isSome_value?_iff : (value? c).isSome = true ↔ IsDigit c := by
  unfold value? IsDigit
  split
  case isTrue digit => simp [digit]
  case isFalse =>
    split
    case isTrue lower => simp [lower]
    case isFalse =>
      split
      case isTrue upper => simp [upper]
      case isFalse => simp [*]

/-- The value of a digit by the number of its character. -/
theorem toNat_of_value? {n : Nat} (read : value? c = some n) :
    c.toNat = 48 + n ∧ n < 10 ∨ (c.toNat = 87 + n ∨ c.toNat = 55 + n) ∧ 10 ≤ n ∧ n < 16 := by
  have order {d e : Char} (le : d ≤ e) : d.toNat ≤ e.toNat := le
  unfold value? at read
  split at read
  case isTrue digit =>
    have first : 48 ≤ c.toNat := order digit.1
    have last : c.toNat ≤ 57 := order digit.2
    cases read
    simp only [Char.reduceToNat]
    omega
  case isFalse =>
    split at read
    case isTrue lower =>
      have first : 97 ≤ c.toNat := order lower.1
      have last : c.toNat ≤ 102 := order lower.2
      cases read
      simp only [Char.reduceToNat]
      omega
    case isFalse =>
      split at read
      case isTrue upper =>
        have first : 65 ≤ c.toNat := order upper.1
        have last : c.toNat ≤ 70 := order upper.2
        cases read
        simp only [Char.reduceToNat]
        omega
      case isFalse => cases read

theorem value?_lt {n : Nat} (read : value? c = some n) : n < 16 := by
  have known := toNat_of_value? read
  omega

/-- What is read is the value of the small letter, or of the figure. -/
theorem digit_of_value? {n : Nat} (read : value? c = some n) : digit n = c.toLower := by
  have known := toNat_of_value? read
  have numbers : ∀ m ∈ List.range 16, (digit m).toNat = if m < 10 then 48 + m else 87 + m := by
    decide
  apply Char.toNat_inj.mp
  rw [numbers n (List.mem_range.mpr (value?_lt read)), Text.toNat_toLower]
  split <;> split <;> omega

/-- The value of a digit, and zero for every other character. -/
def value (c : Char) : Nat := (value? c).getD 0

theorem value?_eq (digit : IsDigit c) : value? c = some (value c) := by
  rcases Option.isSome_iff_exists.mp (isSome_value?_iff.mpr digit) with ⟨n, read⟩
  rw [value, read]
  rfl

theorem value_lt (digit : IsDigit c) : value c < 16 := value?_lt (value?_eq digit)

theorem digit_value (known : IsDigit c) : digit (value c) = c.toLower :=
  digit_of_value? (value?_eq known)

theorem values_digits {cs : List Char} (all : ∀ c ∈ cs, IsDigit c) :
    cs.mapM value? = some (cs.map value) :=
  mapM_eq_map fun c member => value?_eq (all c member)

end Hex

namespace ColorKeyword

/-- The names of colors, full transparency among them. -/
def names : List String := "transparent" :: named.map Prod.fst

/-- A number sign and three, four, six or eight hexadecimal digits. -/
def IsHexLiteral (cs : List Char) : Prop :=
  ∃ digits, cs = '#' :: digits ∧ digits.length ∈ [3, 4, 6, 8] ∧ ∀ c ∈ digits, Hex.IsDigit c

/-- One of the names, where the case of ASCII letters does not matter. -/
def IsName (cs : List Char) : Prop :=
  ∃ name ∈ names, cs.map Char.toLower = name.toList.map Char.toLower

/-- Three, four, six or eight letters that are hexadecimal digits. -/
def IsHexWord (cs : List Char) : Prop :=
  cs.length ∈ [3, 4, 6, 8] ∧ ∀ c ∈ cs, Hex.IsLetter c

instance (cs : List Char) : Decidable (IsHexWord cs) :=
  decidable_of_iff
    (cs.length ∈ [3, 4, 6, 8] ∧ cs.all (fun c => decide (Hex.IsLetter c)) = true)
    (by simp only [IsHexWord, List.all_eq_true, decide_eq_true_eq])

variable {α : Type} [Scalar α] {cs : List Char}

/-! ### The names -/

/-- The names are written in small letters, and in each are letters that are no digits. -/
theorem names_small : ∀ name ∈ names,
    (∀ c ∈ name.toList, 'a' ≤ c ∧ c ≤ 'z') ∧ ∃ c ∈ name.toList, 'f' < c := by
  have small : names.all (fun name => name.toList.all (fun c => decide ('a' ≤ c ∧ c ≤ 'z')) &&
      name.toList.any fun c => decide ('f' < c)) = true := by
    decide +kernel
  simpa only [List.all_eq_true, Bool.and_eq_true, List.any_eq_true, decide_eq_true_eq] using small

theorem names_lower {name : String} (known : name ∈ names) :
    name.toList.map Char.toLower = name.toList := by
  have same : ∀ c ∈ name.toList, c.toLower = id c := by
    intro c member
    have small : 97 ≤ c.toNat := ((names_small name known).1 c member).1
    apply Char.toNat_inj.mp
    rw [Text.toNat_toLower, if_neg (by omega), id]
  rw [List.map_congr_left same, List.map_id]

theorem names_alpha {name : String} (known : name ∈ names) :
    ∀ c ∈ name.toList, c.isAlpha = true := by
  intro c member
  have range : 97 ≤ c.toNat ∧ c.toNat ≤ 122 := (names_small name known).1 c member
  exact Text.isAlpha_iff_toNat.mpr (.inr range)

/-- No name is made of hexadecimal digits alone, so that none is taken for them. -/
theorem names_not_hex {name : String} (known : name ∈ names) : ¬ IsHexWord name.toList := by
  intro word
  obtain ⟨c, member, beyond⟩ := (names_small name known).2
  have above : 102 < c.toNat := beyond
  have digit := Hex.isLetter_iff_toNat.mp (word.2 c member)
  omega

theorem isName_iff : IsName cs ↔ .ofList (cs.map Char.toLower) ∈ names := by
  constructor
  · rintro ⟨name, known, same⟩
    rw [same, names_lower known, String.ofList_toList]
    exact known
  · intro known
    have lower := names_lower known
    rw [String.toList_ofList] at lower
    exact ⟨_, known, by rw [String.toList_ofList, lower]⟩

theorem alpha_of_lower {word : List Char} (same : cs.map Char.toLower = word)
    (alpha : ∀ c ∈ word, c.isAlpha = true) : ∀ c ∈ cs, c.isAlpha = true := by
  intro c member
  rw [← Text.isAlpha_toLower]
  exact alpha _ (same ▸ List.mem_map_of_mem member)

theorem IsName.alpha (name : IsName cs) : ∀ c ∈ cs, c.isAlpha = true := by
  have known := isName_iff.mp name
  have alpha := names_alpha known
  rw [String.toList_ofList] at alpha
  exact alpha_of_lower rfl alpha

theorem IsName.ne_nil (name : IsName cs) : cs ≠ [] := by
  rintro rfl
  obtain ⟨c, member, _⟩ := (names_small _ (isName_iff.mp name)).2
  cases member

/-! ### Hexadecimal digits -/

theorem IsHexWord.alpha (word : IsHexWord cs) : ∀ c ∈ cs, c.isAlpha = true := by
  intro c member
  exact (Hex.isLetter_iff.mp (word.2 c member)).1

theorem IsHexWord.ne_nil (word : IsHexWord cs) : cs ≠ [] := by
  rintro rfl
  exact absurd word.1 (by decide)

theorem isHexWord_iff (alpha : ∀ c ∈ cs, c.isAlpha = true) :
    IsHexWord cs ↔ cs.length ∈ [3, 4, 6, 8] ∧ ∀ c ∈ cs, Hex.IsDigit c := by
  refine and_congr_right fun _ => forall₂_congr fun c member => ?_
  rw [Hex.isLetter_iff, alpha c member, and_iff_right rfl]

theorem isHexWord_lower : IsHexWord (cs.map Char.toLower) ↔ IsHexWord cs := by
  simp only [IsHexWord, List.length_map, List.forall_mem_map, Hex.isLetter_iff,
    Text.isAlpha_toLower, Hex.isDigit_toLower]

theorem IsHexWord.not_name (word : IsHexWord cs) : ¬ IsName cs := by
  intro name
  have other := names_not_hex (isName_iff.mp name)
  rw [String.toList_ofList, isHexWord_lower] at other
  exact other word

/-! ### What is relied on -/

/-- A channel that is written by one digit. -/
def single (c : Char) : UInt8 := .ofNat (17 * Hex.value c)

/-- A channel that is written by two digits. -/
def double (c d : Char) : UInt8 := .ofNat (16 * Hex.value c + Hex.value d)

/-- A parser that reads the four forms of a literal. -/
structure Parser.ReadsLiterals (parser : Parser) : Prop where
  short (r g b : Char) : (∀ c ∈ [r, g, b], Hex.IsDigit c) →
    parser (.ofList ['#', r, g, b]) = some ⟨single r, single g, single b, 255⟩
  shortAlpha (r g b a : Char) : (∀ c ∈ [r, g, b, a], Hex.IsDigit c) →
    parser (.ofList ['#', r, g, b, a]) = some ⟨single r, single g, single b, single a⟩
  long (r r' g g' b b' : Char) : (∀ c ∈ [r, r', g, g', b, b'], Hex.IsDigit c) →
    parser (.ofList ['#', r, r', g, g', b, b']) =
      some ⟨double r r', double g g', double b b', 255⟩
  longAlpha (r r' g g' b b' a a' : Char) : (∀ c ∈ [r, r', g, g', b, b', a, a'], Hex.IsDigit c) →
    parser (.ofList ['#', r, r', g, g', b, b', a, a']) =
      some ⟨double r r', double g g', double b b', double a a'⟩

/-- A parser that knows the names in letters of either case, does not need the number sign of a
literal, and reads no other word. -/
structure Parser.ReadsWords (parser : Parser) : Prop where
  name (word : List Char) : IsName word → (parser (.ofList word)).isSome = true
  bare (digits : List Char) : digits.length ∈ [3, 4, 6, 8] → (∀ c ∈ digits, Hex.IsDigit c) →
    parser (.ofList digits) = parser (.ofList ('#' :: digits))
  other (word : List Char) : (∀ c ∈ word, c.isAlpha = true) → ¬ IsName word → ¬ IsHexWord word →
    parser (.ofList word) = none

/-- The digits of a literal by what they are for. -/
inductive Channels : List Char → Prop where
  | short (r g b : Char) : Channels [r, g, b]
  | shortAlpha (r g b a : Char) : Channels [r, g, b, a]
  | long (r r' g g' b b' : Char) : Channels [r, r', g, g', b, b']
  | longAlpha (r r' g g' b b' a a' : Char) : Channels [r, r', g, g', b, b', a, a']

theorem channels_of_length : ∀ {digits : List Char}, digits.length ∈ [3, 4, 6, 8] → Channels digits
  | [r, g, b], _ => .short r g b
  | [r, g, b, a], _ => .shortAlpha r g b a
  | [r, r', g, g', b, b'], _ => .long r r' g g' b b'
  | [r, r', g, g', b, b', a, a'], _ => .longAlpha r r' g g' b b' a a'

variable {parser : Parser}

theorem Parser.ReadsLiterals.isSome (reads : parser.ReadsLiterals) {digits : List Char}
    (length : digits.length ∈ [3, 4, 6, 8]) (all : ∀ c ∈ digits, Hex.IsDigit c) :
    (parser (.ofList ('#' :: digits))).isSome = true := by
  cases channels_of_length length with
  | short r g b => rw [reads.short r g b all, Option.isSome_some]
  | shortAlpha r g b a => rw [reads.shortAlpha r g b a all, Option.isSome_some]
  | long r r' g g' b b' => rw [reads.long r r' g g' b b' all, Option.isSome_some]
  | longAlpha r r' g g' b b' a a' =>
      rw [reads.longAlpha r r' g g' b b' a a' all, Option.isSome_some]

/-- A word is read as a name or for its digits. -/
theorem isSome_word_iff (literals : parser.ReadsLiterals) (words : parser.ReadsWords)
    (alpha : ∀ c ∈ cs, c.isAlpha = true) :
    (parser (.ofList cs)).isSome = true ↔ IsName cs ∨ IsHexWord cs := by
  by_cases name : IsName cs
  · exact iff_of_true (words.name cs name) (.inl name)
  · by_cases word : IsHexWord cs
    · obtain ⟨length, all⟩ := (isHexWord_iff alpha).mp word
      rw [words.bare cs length all]
      exact iff_of_true (literals.isSome length all) (.inr word)
    · rw [words.other cs alpha name word]
      exact iff_of_false Bool.false_ne_true (not_or_intro name word)

/-! ### What is read at all -/

/-- Of hexadecimal digits there are as many as there are bytes. -/
theorem utf8ByteSize_digits (all : ∀ c ∈ cs, Hex.IsDigit c) :
    (String.ofList cs).utf8ByteSize = cs.length := by
  rw [← NumberText.length_encode]
  induction cs with
  | nil => rfl
  | cons c cs ih =>
      obtain ⟨first, rest⟩ := List.forall_mem_cons.mp all
      have small : c.toNat < 128 := by
        rw [Hex.isDigit_iff_toNat] at first
        omega
      rw [NumberText.encode_cons, NumberText.utf8EncodeChar_of_lt small, List.singleton_append,
        List.length_cons, List.length_cons, ih rest]

theorem isHexLiteral_iff (text : String) :
    isHexLiteral text = true ↔ IsHexLiteral text.toList := by
  have digits (cs : List Char) : cs.all Hex.isDigit = true ↔ ∀ c ∈ cs, Hex.IsDigit c := by
    simp only [List.all_eq_true, Hex.isDigit, Hex.isSome_value?_iff]
  unfold isHexLiteral
  split
  case h_1 cs literal =>
    rw [Bool.and_eq_true, digits, List.contains_iff_mem, literal]
    constructor
    · rintro ⟨size, all⟩
      rw [utf8ByteSize_digits all] at size
      exact ⟨cs, rfl, size, all⟩
    · rintro ⟨_, same, length, all⟩
      cases same
      rw [utf8ByteSize_digits all]
      exact ⟨length, all⟩
  case h_2 _ other =>
    refine iff_of_false Bool.false_ne_true ?_
    rintro ⟨cs, literal, _⟩
    exact other cs literal

theorem isWord_iff (text : String) :
    isWord text = true ↔ text.toList ≠ [] ∧ ∀ c ∈ text.toList, c.isAlpha = true := by
  simp [isWord]

/-- The texts that stand for colors. -/
theorem isSome_resolve_iff (literals : parser.ReadsLiterals) (words : parser.ReadsWords)
    (text : String) :
    (resolve parser text : Option (Rgba α)).isSome = true ↔
      (IsHexLiteral text.toList ∨ IsName text.toList) ∨ IsHexWord text.toList := by
  rw [or_assoc, ← isHexLiteral_iff, resolve]
  by_cases literal : isHexLiteral text = true
  · obtain ⟨digits, written, length, all⟩ := (isHexLiteral_iff text).mp literal
    have read := literals.isSome length all
    rw [← written, String.ofList_toList] at read
    simp [literal, read]
  · by_cases word : isWord text = true
    · have alpha := ((isWord_iff text).mp word).2
      have read := isSome_word_iff literals words alpha
      rw [String.ofList_toList] at read
      simp [literal, word, read]
    · have neither : ¬ (IsName text.toList ∨ IsHexWord text.toList) := by
        rintro (name | digits)
        · exact word ((isWord_iff text).mpr ⟨name.ne_nil, name.alpha⟩)
        · exact word ((isWord_iff text).mpr ⟨digits.ne_nil, digits.alpha⟩)
      simp [literal, word, neither]

end ColorKeyword

end StyleFunctions
