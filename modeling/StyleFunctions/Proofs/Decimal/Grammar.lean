import StyleFunctions.Decimal.Literal

/-!
The grammar of number literals, and the scan that finds one: it cuts off the longest beginning of a
text that may be a number, and what it reads as a number is what the grammar derives.
-/

namespace StyleFunctions.NumberText

/-- Any run of digits, also an empty one. -/
def Digits (cs : List Char) : Prop := ∀ c ∈ cs, c.isDigit = true

instance (cs : List Char) : Decidable (Digits cs) :=
  decidable_of_iff (cs.all Char.isDigit = true) List.all_eq_true

/-- An optional sign, and whether it makes the number negative. -/
inductive Sign : List Char → Bool → Prop where
  | none : Sign [] false
  | plus : Sign ['+'] false
  | minus : Sign ['-'] true

/-- Digits with at most one point and at least one digit: the ones before the point and the ones
behind it. -/
inductive Mantissa : List Char → List Char → List Char → Prop where
  | whole {whole : List Char} : Digits whole → whole ≠ [] → Mantissa whole whole []
  | pointed {whole fraction : List Char} : Digits whole → whole ≠ [] → Digits fraction →
      Mantissa (whole ++ '.' :: fraction) whole fraction
  | fraction {fraction : List Char} : Digits fraction → fraction ≠ [] →
      Mantissa ('.' :: fraction) [] fraction

/-- An optional power of ten. -/
inductive Exponent : List Char → Int → Prop where
  | none : Exponent [] 0
  | power {mark : Char} {sign digits : List Char} {negative : Bool} : mark = 'e' ∨ mark = 'E' →
      Sign sign negative → Digits digits → digits ≠ [] →
      Exponent (mark :: (sign ++ digits))
        (if negative then -natOfDigits digits else natOfDigits digits)

/-- A number and the decimal that it denotes. -/
inductive Literal : List Char → Decimal → Prop where
  | mk {sign mantissa whole fraction exponent : List Char} {negative : Bool} {power : Int} :
      Sign sign negative → Mantissa mantissa whole fraction → Exponent exponent power →
      Literal (sign ++ mantissa ++ exponent)
        ⟨negative, natOfDigits (whole ++ fraction), power - fraction.length⟩

/-- What a text may be a number by: digits and points in any order where the mantissa stands. -/
structure Numeric (n : NumberText) : Prop where
  sign : ∃ negative, Sign n.sign negative
  mantissa : ∀ c ∈ n.mantissa, c.isDigit = true ∨ c = '.'
  exponent : ∃ power, Exponent n.exponent power

theorem digits_append {front back : List Char} :
    Digits (front ++ back) ↔ Digits front ∧ Digits back := by
  simp only [Digits, List.mem_append, or_imp, forall_and]

theorem isSign_iff {c : Char} : isSign c = true ↔ c = '+' ∨ c = '-' := by
  simp [isSign]

theorem isExponentMark_iff {c : Char} : isExponentMark c = true ↔ c = 'e' ∨ c = 'E' := by
  simp [isExponentMark]

theorem isMantissa_iff {c : Char} : isMantissa c = true ↔ c.isDigit = true ∨ c = '.' := by
  simp [isMantissa]

theorem isSign_of_isDigit {c : Char} (digit : c.isDigit = true) : isSign c = false := by
  rw [Bool.eq_false_iff]
  intro sign
  rcases isSign_iff.mp sign with rfl | rfl <;> exact absurd digit (by decide)

theorem isSign_of_isMantissa {c : Char} (mantissa : isMantissa c = true) : isSign c = false := by
  rcases isMantissa_iff.mp mantissa with digit | rfl
  · exact isSign_of_isDigit digit
  · decide

theorem isMantissa_of_isExponentMark {c : Char} (mark : isExponentMark c = true) :
    isMantissa c = false := by
  rcases isExponentMark_iff.mp mark with rfl | rfl <;> decide

theorem isSign_of_isExponentMark {c : Char} (mark : isExponentMark c = true) : isSign c = false := by
  rcases isExponentMark_iff.mp mark with rfl | rfl <;> decide

theorem sign_spanSign (cs : List Char) : ∃ negative, Sign (spanSign cs).1 negative := by
  cases cs with
  | nil => exact ⟨false, .none⟩
  | cons c cs =>
      by_cases sign : isSign c = true
      · simp only [spanSign, sign, if_true]
        rcases isSign_iff.mp sign with rfl | rfl
        · exact ⟨false, .plus⟩
        · exact ⟨true, .minus⟩
      · simp only [spanSign, sign, Bool.false_eq_true, if_false]
        exact ⟨false, .none⟩

/-- A sign is cut off as a whole, and nothing where no sign stands. -/
theorem spanSign_append_of_sign {sign rest : List Char} {negative : Bool} (signed : Sign sign negative)
    (clear : sign = [] → ∀ c ∈ rest.head?, isSign c = false) :
    spanSign (sign ++ rest) = (sign, rest) := by
  cases signed with
  | plus => rfl
  | minus => rfl
  | none =>
      cases rest with
      | nil => rfl
      | cons c rest => simp [spanSign, clear rfl c rfl]

theorem isSign_head_of_digits {digits : List Char} (all : Digits digits) (rest : List Char)
    (filled : digits ≠ []) : ∀ c ∈ (digits ++ rest).head?, isSign c = false := by
  cases digits with
  | nil => exact absurd rfl filled
  | cons d digits =>
      intro c head
      cases head
      exact isSign_of_isDigit (all d (List.mem_cons_self ..))

theorem spanSign_digits {sign digits : List Char} {negative : Bool} (signed : Sign sign negative)
    (all : Digits digits) (filled : digits ≠ []) (rest : List Char) :
    spanSign (sign ++ (digits ++ rest)) = (sign, digits ++ rest) := by
  apply spanSign_append_of_sign signed
  intro _
  exact isSign_head_of_digits all rest filled

theorem digits_takeWhile (cs : List Char) : Digits (cs.takeWhile Char.isDigit) := by
  intro c member
  exact List.all_eq_true.mp List.all_takeWhile c member

theorem takeWhile_of_stop {p : Char → Bool} {rest : List Char}
    (stop : ∀ c ∈ rest.head?, p c = false) : rest.takeWhile p = [] := by
  cases rest with
  | nil => rfl
  | cons c rest => simp [stop c rfl]

theorem dropWhile_of_stop {p : Char → Bool} {rest : List Char}
    (stop : ∀ c ∈ rest.head?, p c = false) : rest.dropWhile p = rest := by
  cases rest with
  | nil => rfl
  | cons c rest => simp [stop c rfl]

theorem takeWhile_append_of_stop {p : Char → Bool} {run rest : List Char}
    (inside : ∀ c ∈ run, p c = true) (stop : ∀ c ∈ rest.head?, p c = false) :
    (run ++ rest).takeWhile p = run := by
  rw [List.takeWhile_append_of_pos inside, takeWhile_of_stop stop, List.append_nil]

theorem dropWhile_append_of_stop {p : Char → Bool} {run rest : List Char}
    (inside : ∀ c ∈ run, p c = true) (stop : ∀ c ∈ rest.head?, p c = false) :
    (run ++ rest).dropWhile p = rest := by
  rw [List.dropWhile_append_of_pos inside, dropWhile_of_stop stop]

theorem exponent_spanExponent (cs : List Char) : ∃ power, Exponent (spanExponent cs).1 power := by
  cases cs with
  | nil => exact ⟨0, .none⟩
  | cons c cs =>
      simp only [spanExponent]
      split
      case isFalse => exact ⟨0, .none⟩
      case isTrue found =>
        simp only [Bool.and_eq_true, Bool.not_eq_true', List.isEmpty_eq_false_iff] at found
        rcases sign_spanSign cs with ⟨negative, sign⟩
        exact ⟨_, .power (isExponentMark_iff.mp found.1) sign (digits_takeWhile _) found.2⟩

/-- An exponent is cut off as a whole when no further digit follows. -/
theorem spanExponent_append_of_exponent {exponent rest : List Char} {power : Int}
    (formed : Exponent exponent power) (present : exponent ≠ [])
    (stop : ∀ c ∈ rest.head?, c.isDigit = false) :
    spanExponent (exponent ++ rest) = (exponent, rest) := by
  cases formed with
  | none => exact absurd rfl present
  | @power mark sign digits negative marked signed all filled =>
      have cut := spanSign_digits signed all filled rest
      simp [spanExponent, cut, takeWhile_append_of_stop all stop, dropWhile_append_of_stop all stop,
        isExponentMark_iff.mpr marked, filled]

theorem spanExponent_prefix {exponent : List Char} {power : Int}
    (formed : Exponent exponent power) (rest : List Char) :
    exponent <+: (spanExponent (exponent ++ rest)).1 := by
  cases formed with
  | none => exact List.nil_prefix
  | @power mark sign digits negative marked signed all filled =>
      have cut := spanSign_digits signed all filled rest
      refine ⟨rest.takeWhile Char.isDigit, ?_⟩
      simp [spanExponent, cut, List.takeWhile_append_of_pos all, isExponentMark_iff.mpr marked, filled]

theorem head_exponent {exponent : List Char} {power : Int} (formed : Exponent exponent power)
    (present : exponent ≠ []) (rest : List Char) :
    ∀ c ∈ (exponent ++ rest).head?, isSign c = false ∧ isMantissa c = false := by
  cases formed with
  | none => exact absurd rfl present
  | power marked _ _ _ =>
      intro c head
      cases head
      have mark := isExponentMark_iff.mpr marked
      exact ⟨isSign_of_isExponentMark mark, isMantissa_of_isExponentMark mark⟩

/-- No number goes on in the text. -/
structure Ends (rest : List Char) : Prop where
  head : ∀ c ∈ rest.head?, isSign c = false ∧ isMantissa c = false
  no_exponent : spanExponent rest = ([], rest)

theorem ends_nil : Ends [] where
  head := by simp
  no_exponent := rfl

theorem numeric_scan (cs : List Char) : Numeric (scan cs).1 where
  sign := sign_spanSign cs
  mantissa := by
    intro c member
    exact isMantissa_iff.mp (List.all_eq_true.mp List.all_takeWhile c member)
  exponent := exponent_spanExponent _

variable {n q : NumberText} {d : Decimal} {cs rest : List Char}

theorem head_exponent_append (numeric : Numeric n) (ends : Ends rest) :
    ∀ c ∈ (n.exponent ++ rest).head?, isSign c = false ∧ isMantissa c = false := by
  rcases numeric.exponent with ⟨power, formed⟩
  by_cases present : n.exponent = []
  · rw [present]
    exact ends.head
  · exact head_exponent formed present rest

theorem isSign_head_of_mantissa {mantissa tail : List Char}
    (inside : ∀ c ∈ mantissa, isMantissa c = true) (clear : ∀ c ∈ tail.head?, isSign c = false) :
    ∀ c ∈ (mantissa ++ tail).head?, isSign c = false := by
  cases mantissa with
  | nil => exact clear
  | cons d mantissa =>
      intro c head
      cases head
      exact isSign_of_isMantissa (inside d (List.mem_cons_self ..))

theorem isMantissa_of_numeric (numeric : Numeric n) : ∀ c ∈ n.mantissa, isMantissa c = true := by
  intro c member
  exact isMantissa_iff.mpr (numeric.mantissa c member)

theorem spanSign_chars (numeric : Numeric n)
    (clear : n.sign = [] → ∀ c ∈ (n.mantissa ++ (n.exponent ++ rest)).head?, isSign c = false) :
    spanSign (n.chars ++ rest) = (n.sign, n.mantissa ++ (n.exponent ++ rest)) := by
  rcases numeric.sign with ⟨negative, signed⟩
  rw [chars, List.append_assoc, List.append_assoc]
  exact spanSign_append_of_sign signed clear

/-- A number is found again where it ends. -/
theorem scan_append_of_ends (numeric : Numeric n) (ends : Ends rest) :
    scan (n.chars ++ rest) = (n, rest) := by
  rcases numeric.exponent with ⟨power, formed⟩
  have inside := isMantissa_of_numeric numeric
  have after := head_exponent_append numeric ends
  have sign : spanSign (n.chars ++ rest) = (n.sign, n.mantissa ++ (n.exponent ++ rest)) := by
    apply spanSign_chars numeric
    intro _
    apply isSign_head_of_mantissa inside
    intro c head
    exact (after c head).1
  have stop : ∀ c ∈ (n.exponent ++ rest).head?, isMantissa c = false := by
    intro c head
    exact (after c head).2
  have exponent : spanExponent (n.exponent ++ rest) = (n.exponent, rest) := by
    by_cases present : n.exponent = []
    · rw [present]
      exact ends.no_exponent
    · apply spanExponent_append_of_exponent formed present
      intro c head
      have other := (ends.head c head).2
      rw [Bool.eq_false_iff] at other ⊢
      intro digit
      exact other (isMantissa_iff.mpr (.inl digit))
  simp only [scan, sign, takeWhile_append_of_stop inside stop, dropWhile_append_of_stop inside stop,
    exponent]

/-- A text is a number in one way at most. -/
theorem numeric_inj (first : Numeric n) (second : Numeric q) (same : n.chars = q.chars) : n = q := by
  have left := scan_append_of_ends first ends_nil
  have right := scan_append_of_ends second ends_nil
  rw [same, right] at left
  exact (Prod.mk.inj left).1.symm

theorem chars_scan {sign mantissa tail : List Char} (cut : spanSign cs = (sign, mantissa ++ tail))
    (inside : ∀ c ∈ mantissa, isMantissa c = true) :
    (scan cs).1.chars = sign ++ (mantissa ++ (tail.takeWhile isMantissa ++
      (spanExponent (tail.dropWhile isMantissa)).1)) := by
  simp only [scan, chars, cut, List.takeWhile_append_of_pos inside,
    List.dropWhile_append_of_pos inside, List.append_assoc]

/-- Unless nothing at all is there, what may be a number without a sign does not begin with one. -/
theorem isSign_head_of_numeric (numeric : Numeric n) (present : n.chars ≠ []) (unsigned : n.sign = []) :
    ∀ c ∈ (n.mantissa ++ (n.exponent ++ rest)).head?, isSign c = false := by
  rcases numeric.exponent with ⟨power, formed⟩
  have inside := isMantissa_of_numeric numeric
  by_cases flat : n.exponent = []
  · cases mantissa : n.mantissa with
    | nil => simp [chars, unsigned, mantissa, flat] at present
    | cons d more =>
        intro c head
        cases head
        exact isSign_of_isMantissa (inside d (by simp [mantissa]))
  · apply isSign_head_of_mantissa inside
    intro c head
    exact (head_exponent formed flat rest c head).1

/-- The scan cuts off the longest beginning that may be a number. -/
theorem prefix_scan (numeric : Numeric n) (rest : List Char) :
    n.chars <+: (scan (n.chars ++ rest)).1.chars := by
  by_cases present : n.chars = []
  · rw [present]
    exact List.nil_prefix
  · rcases numeric.exponent with ⟨power, formed⟩
    have cut : spanSign (n.chars ++ rest) = (n.sign, n.mantissa ++ (n.exponent ++ rest)) :=
      spanSign_chars numeric (isSign_head_of_numeric numeric present)
    rw [chars_scan cut (isMantissa_of_numeric numeric), chars, List.append_assoc,
      List.prefix_append_right_inj, List.prefix_append_right_inj]
    by_cases flat : n.exponent = []
    · rw [flat]
      exact List.nil_prefix
    · -- The mark of the exponent ends the mantissa, so both scans go on from there.
      have stop : ∀ c ∈ (n.exponent ++ rest).head?, isMantissa c = false := by
        intro c head
        exact (head_exponent formed flat rest c head).2
      rw [takeWhile_of_stop stop, dropWhile_of_stop stop]
      exact spanExponent_prefix formed rest

theorem mantissa?_of_mantissa {mantissa whole fraction : List Char}
    (formed : Mantissa mantissa whole fraction) : mantissa? mantissa = some (whole, fraction) := by
  cases formed with
  | whole all filled =>
      have empty : ∀ c ∈ ([] : List Char).head?, c.isDigit = false := by simp
      have front := takeWhile_append_of_stop all empty
      have back := dropWhile_append_of_stop all empty
      rw [List.append_nil] at front back
      simp [mantissa?, front, back, filled]
  | pointed all filled rest =>
      have stop : ∀ c ∈ ('.' :: fraction).head?, c.isDigit = false := by
        intro c head
        cases head
        decide
      have digits : fraction.all Char.isDigit = true := List.all_eq_true.mpr rest
      simp only [mantissa?, takeWhile_append_of_stop all stop, dropWhile_append_of_stop all stop]
      simp [filled, digits]
  | fraction all filled =>
      have digits : fraction.all Char.isDigit = true := List.all_eq_true.mpr all
      have point : Char.isDigit '.' = false := by decide
      simp only [mantissa?, List.takeWhile_cons, List.dropWhile_cons, point]
      simp [digits, filled]

theorem point_of_dropWhile {mantissa tail : List Char} {c : Char}
    (inside : ∀ c ∈ mantissa, c.isDigit = true ∨ c = '.')
    (rest : mantissa.dropWhile Char.isDigit = c :: tail) : c = '.' := by
  have member : c ∈ mantissa := by
    apply (List.dropWhile_sublist Char.isDigit).subset
    simp [rest]
  have other : c.isDigit = false := by
    have head := List.head?_dropWhile_not Char.isDigit mantissa
    rw [rest] at head
    simpa using head
  rcases inside c member with digit | point
  · rw [other] at digit
    cases digit
  · exact point

theorem mantissa_of_mantissa? {mantissa whole fraction : List Char}
    (inside : ∀ c ∈ mantissa, c.isDigit = true ∨ c = '.')
    (found : mantissa? mantissa = some (whole, fraction)) : Mantissa mantissa whole fraction := by
  have split : mantissa.takeWhile Char.isDigit ++ mantissa.dropWhile Char.isDigit = mantissa :=
    List.takeWhile_append_dropWhile
  have digits := digits_takeWhile mantissa
  simp only [mantissa?] at found
  cases rest : mantissa.dropWhile Char.isDigit with
  | nil =>
      rw [rest] at found split
      rw [List.append_nil] at split
      rw [split] at found digits
      by_cases empty : mantissa = []
      · simp [empty] at found
      · simp [empty] at found
        rcases found with ⟨rfl, rfl⟩
        exact .whole digits empty
  | cons c tail =>
      have point := point_of_dropWhile inside rest
      subst point
      rw [rest] at found split
      simp only [Option.ite_none_right_eq_some, Bool.and_eq_true, Bool.not_eq_true',
        Option.some.injEq, Prod.mk.injEq] at found
      rcases found with ⟨⟨all, filled⟩, rfl, rfl⟩
      have tailDigits : Digits tail := List.all_eq_true.mp all
      by_cases empty : mantissa.takeWhile Char.isDigit = []
      · rw [empty] at filled split ⊢
        rw [← split]
        exact .fraction tailDigits (by simpa using filled)
      · have formed : Mantissa (mantissa.takeWhile Char.isDigit ++ '.' :: tail)
            (mantissa.takeWhile Char.isDigit) tail := .pointed digits empty tailDigits
        rwa [split] at formed

theorem exponentValue_of_exponent {exponent : List Char} {power : Int}
    (formed : Exponent exponent power) : exponentValue exponent = power := by
  cases formed with
  | none => rfl
  | @power mark sign digits negative marked signed all filled =>
      have cut := spanSign_digits signed all filled []
      rw [List.append_nil] at cut
      simp only [exponentValue, cut]
      cases signed <;> rfl

theorem decimal?_of_parts {sign mantissa whole fraction exponent : List Char} {negative : Bool}
    {power : Int} (signed : Sign sign negative) (formed : Mantissa mantissa whole fraction)
    (raised : Exponent exponent power) :
    decimal? ⟨sign, mantissa, exponent⟩ =
      some ⟨negative, natOfDigits (whole ++ fraction), power - fraction.length⟩ := by
  simp only [decimal?, mantissa?_of_mantissa formed, exponentValue_of_exponent raised]
  cases signed <;> rfl

theorem digit_or_point_of_mantissa {mantissa whole fraction : List Char}
    (formed : Mantissa mantissa whole fraction) : ∀ c ∈ mantissa, c.isDigit = true ∨ c = '.' := by
  intro c member
  cases formed with
  | whole all _ => exact .inl (all c member)
  | pointed all _ rest =>
      simp only [List.mem_append, List.mem_cons] at member
      rcases member with member | rfl | member
      · exact .inl (all c member)
      · exact .inr rfl
      · exact .inl (rest c member)
  | fraction all _ =>
      rcases List.mem_cons.mp member with rfl | member
      · exact .inr rfl
      · exact .inl (all c member)

/-- The parts of a number. -/
theorem exists_parts_of_literal {cs : List Char} (literal : Literal cs d) :
    ∃ n : NumberText, n.chars = cs ∧ Numeric n ∧ n.decimal? = some d := by
  cases literal with
  | @mk sign mantissa whole fraction exponent negative power signed formed raised =>
      refine ⟨⟨sign, mantissa, exponent⟩, rfl, ?_, decimal?_of_parts signed formed raised⟩
      exact ⟨⟨negative, signed⟩, digit_or_point_of_mantissa formed, ⟨power, raised⟩⟩

/-- What the scan found is read as a number exactly when the grammar derives it. -/
theorem decimal?_eq_some_iff (numeric : Numeric n) : n.decimal? = some d ↔ Literal n.chars d := by
  constructor
  · intro read
    rcases numeric.sign with ⟨negative, signed⟩
    rcases numeric.exponent with ⟨power, raised⟩
    rcases Option.map_eq_some_iff.mp read with ⟨⟨whole, fraction⟩, found, _⟩
    have formed := mantissa_of_mantissa? numeric.mantissa found
    have same := decimal?_of_parts signed formed raised
    have known : some d = some ⟨negative, natOfDigits (whole ++ fraction),
        power - fraction.length⟩ := read.symm.trans same
    cases known
    exact .mk signed formed raised
  · intro literal
    rcases exists_parts_of_literal literal with ⟨q, chars, other, read⟩
    rw [numeric_inj numeric other chars.symm]
    exact read

end StyleFunctions.NumberText
