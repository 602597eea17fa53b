import StyleFunctions.Proofs.Decimal.Grammar

/-!
The scan for a number over the bytes of a text. All characters of a number have a single byte, and no
byte of a longer character is taken for one of them, so the bytes end where the characters do.
-/

namespace StyleFunctions.NumberText

/-- The bytes of a text. -/
def encode (cs : List Char) : List UInt8 := cs.flatMap String.utf8EncodeChar

/-- Whether a byte alone is a character of a class. -/
def isByteOf (p : Char → Bool) (b : UInt8) : Bool := p (Char.ofUInt8 b)

def signLength : List UInt8 → Nat
  | b :: _ => if isByteOf isSign b then 1 else 0
  | [] => 0

def runLength (p : Char → Bool) (bytes : List UInt8) : Nat :=
  (bytes.takeWhile (isByteOf p)).length

/-- A mark counts only when digits follow it, perhaps after a sign. -/
def exponentLength : List UInt8 → Nat
  | b :: bytes =>
    let sign := signLength bytes
    let digits := runLength Char.isDigit (bytes.drop sign)
    if isByteOf isExponentMark b && digits != 0 then 1 + sign + digits else 0
  | [] => 0

/-- How many bytes at the beginning may be a number. -/
def numericLength (bytes : List UInt8) : Nat :=
  let start := signLength bytes
  let stop := start + runLength isMantissa (bytes.drop start)
  stop + exponentLength (bytes.drop stop)

/-- All characters of a class have a single byte. -/
def Ascii (p : Char → Bool) : Prop := ∀ c, p c = true → c.toNat < 128

theorem ascii_isSign : Ascii isSign := by
  intro c sign
  rcases isSign_iff.mp sign with rfl | rfl <;> decide

theorem ascii_isExponentMark : Ascii isExponentMark := by
  intro c mark
  rcases isExponentMark_iff.mp mark with rfl | rfl <;> decide

theorem ascii_isDigit : Ascii Char.isDigit := by
  intro c digit
  exact Nat.lt_of_le_of_lt (Char.isDigit_iff_toNat.mp digit).2 (by decide)

theorem ascii_isMantissa : Ascii isMantissa := by
  intro c mantissa
  rcases isMantissa_iff.mp mantissa with digit | rfl
  · exact ascii_isDigit c digit
  · decide

theorem encode_cons (c : Char) (cs : List Char) :
    encode (c :: cs) = String.utf8EncodeChar c ++ encode cs := by
  simp [encode]

theorem encode_append (front back : List Char) :
    encode (front ++ back) = encode front ++ encode back := by
  simp [encode]

theorem drop_encode_append (front back : List Char) :
    (encode (front ++ back)).drop (encode front).length = encode back := by
  rw [encode_append, List.drop_left]

theorem toByteArray_ofList (cs : List Char) :
    (String.ofList cs).toByteArray.data.toList = encode cs := by
  simp [String.toByteArray_ofList, List.utf8Encode, encode]

theorem length_encode (cs : List Char) : (encode cs).length = (String.ofList cs).utf8ByteSize := by
  rw [← String.size_toByteArray, ← toByteArray_ofList, Array.length_toList]
  rfl

variable {p : Char → Bool} {c : Char}

theorem ofUInt8_ofNat {n : Nat} (small : n < 256) : (Char.ofUInt8 (UInt8.ofNat n)).toNat = n := by
  calc
    (Char.ofUInt8 (UInt8.ofNat n)).toNat = (UInt8.ofNat n).toUInt32.toNat := rfl
    _ = (UInt8.ofNat n).toNat := UInt8.toNat_toUInt32 _
    _ = n := by rw [UInt8.toNat_ofNat', Nat.mod_eq_of_lt small]

theorem ofUInt8_toNat (small : c.toNat < 128) : Char.ofUInt8 (UInt8.ofNat c.toNat) = c := by
  apply Char.toNat_inj.mp
  exact ofUInt8_ofNat (by omega)

theorem utf8EncodeChar_of_lt (small : c.toNat < 128) :
    String.utf8EncodeChar c = [UInt8.ofNat c.toNat] := by
  have value : c.val.toNat ≤ 127 := Nat.le_of_lt_succ small
  simp only [String.utf8EncodeChar, value, if_true]
  rfl

/-- A character with more bytes begins with a byte that is no character alone. -/
theorem utf8EncodeChar_of_le (large : 128 ≤ c.toNat) :
    ∃ lead bytes, String.utf8EncodeChar c = UInt8.ofNat lead :: bytes ∧ 128 ≤ lead ∧
      lead < 256 := by
  have value : ¬ c.val.toNat ≤ 127 := Nat.not_le.mpr large
  simp only [String.utf8EncodeChar, value, if_false]
  split
  · exact ⟨_, _, rfl, by omega, by omega⟩
  · split
    · exact ⟨_, _, rfl, by omega, by omega⟩
    · exact ⟨_, _, rfl, by omega, by omega⟩

theorem encode_of_class (ascii : Ascii p) (inside : p c = true) :
    ∃ b, String.utf8EncodeChar c = [b] ∧ isByteOf p b = true := by
  have small := ascii c inside
  refine ⟨UInt8.ofNat c.toNat, utf8EncodeChar_of_lt small, ?_⟩
  rw [isByteOf, ofUInt8_toNat small, inside]

theorem encode_of_other (ascii : Ascii p) (outside : p c = false) :
    ∃ b bytes, String.utf8EncodeChar c = b :: bytes ∧ isByteOf p b = false := by
  by_cases small : c.toNat < 128
  · refine ⟨UInt8.ofNat c.toNat, [], utf8EncodeChar_of_lt small, ?_⟩
    rw [isByteOf, ofUInt8_toNat small, outside]
  · rcases utf8EncodeChar_of_le (Nat.not_lt.mp small) with ⟨lead, bytes, split, above, below⟩
    refine ⟨UInt8.ofNat lead, bytes, split, ?_⟩
    rw [isByteOf, Bool.eq_false_iff]
    intro inside
    have bound := ascii _ inside
    rw [ofUInt8_ofNat below] at bound
    omega

theorem signLength_encode (cs : List Char) :
    signLength (encode cs) = (encode (spanSign cs).1).length := by
  cases cs with
  | nil => rfl
  | cons c cs =>
      cases sign : isSign c with
      | true =>
          rcases encode_of_class ascii_isSign sign with ⟨b, byte, known⟩
          simp [spanSign, sign, encode, byte, signLength, known]
      | false =>
          rcases encode_of_other ascii_isSign sign with ⟨b, bytes, byte, known⟩
          simp [spanSign, sign, encode, byte, signLength, known]

theorem takeWhile_encode (ascii : Ascii p) (cs : List Char) :
    (encode cs).takeWhile (isByteOf p) = encode (cs.takeWhile p) := by
  induction cs with
  | nil => rfl
  | cons c cs ih =>
      rw [encode_cons]
      cases inside : p c with
      | true =>
          rcases encode_of_class ascii inside with ⟨b, byte, known⟩
          simp [byte, known, inside, encode_cons, ih]
      | false =>
          rcases encode_of_other ascii inside with ⟨b, bytes, byte, known⟩
          simp [byte, known, inside, encode]

theorem runLength_encode (ascii : Ascii p) (cs : List Char) :
    runLength p (encode cs) = (encode (cs.takeWhile p)).length := by
  rw [runLength, takeWhile_encode ascii]

theorem encode_eq_nil {cs : List Char} : encode cs = [] ↔ cs = [] := by
  constructor
  · intro empty
    cases cs with
    | nil => rfl
    | cons c cs =>
        rw [encode_cons, List.append_eq_nil_iff] at empty
        have size : (String.utf8EncodeChar c).length = c.utf8Size := String.length_utf8EncodeChar c
        rw [empty.1] at size
        exact absurd size (Nat.ne_of_lt c.utf8Size_pos)
  · intro empty
    rw [empty]
    rfl

theorem drop_signLength (cs : List Char) :
    (encode cs).drop (signLength (encode cs)) = encode (spanSign cs).2 := by
  have behind := drop_encode_append (spanSign cs).1 (spanSign cs).2
  rwa [spanSign_append, ← signLength_encode] at behind

theorem runLength_behind_sign (ascii : Ascii p) (cs : List Char) :
    runLength p ((encode cs).drop (signLength (encode cs))) =
      (encode ((spanSign cs).2.takeWhile p)).length := by
  rw [drop_signLength, runLength_encode ascii]

theorem exponentLength_encode (cs : List Char) :
    exponentLength (encode cs) = (encode (spanExponent cs).1).length := by
  cases cs with
  | nil => rfl
  | cons c cs =>
      cases mark : isExponentMark c with
      | false =>
          rcases encode_of_other ascii_isExponentMark mark with ⟨b, bytes, byte, known⟩
          simp [spanExponent, mark, encode, byte, exponentLength, known]
      | true =>
          rcases encode_of_class ascii_isExponentMark mark with ⟨b, byte, known⟩
          simp only [encode_cons, byte, List.singleton_append, exponentLength, spanExponent, known,
            mark, runLength_behind_sign ascii_isDigit, Bool.true_and]
          rw [signLength_encode]
          by_cases empty : (spanSign cs).2.takeWhile Char.isDigit = []
          · rw [empty]
            rfl
          · have filled : (encode ((spanSign cs).2.takeWhile Char.isDigit)).length ≠ 0 := by
              rw [Ne, List.length_eq_zero_iff, encode_eq_nil]
              exact empty
            rw [if_pos (by simpa using filled), if_pos (by simpa using empty), encode_cons,
              encode_append, byte]
            simp only [List.length_append, List.length_singleton]
            omega

/-- The bytes that may be a number are those of the characters that may be one. -/
theorem numericLength_encode (cs : List Char) :
    numericLength (encode cs) = (encode (scan cs).1.chars).length := by
  -- Each part starts where the bytes of the parts before it end.
  have front : (encode (spanSign cs).1).length +
      (encode ((spanSign cs).2.takeWhile isMantissa)).length =
        (encode ((spanSign cs).1 ++ (spanSign cs).2.takeWhile isMantissa)).length := by
    rw [encode_append, List.length_append]
  have behind : (encode cs).drop
      (encode ((spanSign cs).1 ++ (spanSign cs).2.takeWhile isMantissa)).length =
        encode ((spanSign cs).2.dropWhile isMantissa) := by
    have all := drop_encode_append ((spanSign cs).1 ++ (spanSign cs).2.takeWhile isMantissa)
      ((spanSign cs).2.dropWhile isMantissa)
    rwa [List.append_assoc, List.takeWhile_append_dropWhile, spanSign_append] at all
  rw [numericLength, runLength_behind_sign ascii_isMantissa, signLength_encode, front, behind, exponentLength_encode]
  simp only [scan, chars, encode_append, List.length_append]

/-- The scan over the bytes stops between two characters, where the number ends. -/
theorem numericLength_toByteArray (cs : List Char) :
    numericLength (String.ofList cs).toByteArray.data.toList =
      (String.ofList (scan cs).1.chars).utf8ByteSize := by
  rw [toByteArray_ofList, numericLength_encode, length_encode]

theorem isValid_numericLength (cs : List Char) :
    String.Pos.Raw.IsValid (String.ofList cs)
      ⟨numericLength (String.ofList cs).toByteArray.data.toList⟩ := by
  rw [String.Pos.Raw.isValid_iff_exists_append, numericLength_toByteArray]
  refine ⟨.ofList (scan cs).1.chars, .ofList (scan cs).2, ?_, rfl⟩
  rw [← String.ofList_append, scan_append]

end StyleFunctions.NumberText
