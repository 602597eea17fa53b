import StyleFunctions.Proofs.Decimal.Encoded
import StyleFunctions.Proofs.Text.Solid
import StyleFunctions.Text.Percent

/-!
Percent-encoding read back. An encoder is relied on to write `%` and two digits for every byte outside
the kept set. What it writes is then a row of kept characters and of triplets, and it stands for the
bytes of the text that was encoded, so that no two texts are encoded alike.
-/

namespace StyleFunctions.Percent

/-- A byte of the kept set stays what it is, every other byte becomes `%` and its two digits. The marks
of a kept set are ASCII. -/
structure Encoder.Lawful (encoder : Encoder) : Prop where
  toList_eq (marks : List Char) (text : String) : (∀ c ∈ marks, c.toNat < 128) →
    (encoder marks text).toList = text.toUTF8.data.toList.flatMap (encodeByte marks)

theorem lawful_encodeText : Encoder.Lawful encodeText where
  toList_eq _ _ _ := String.toList_ofList

/-- The bytes that a text stands for. A percent sign with two digits is one byte, every other
character is its own bytes. -/
def decode : List Char → List UInt8
  | '%' :: high :: low :: cs =>
    match Hex.value? high, Hex.value? low with
    | some m, some n => UInt8.ofNat (16 * m + n) :: decode cs
    | _, _ => String.utf8EncodeChar '%' ++ decode (high :: low :: cs)
  | c :: cs => String.utf8EncodeChar c ++ decode cs
  | [] => []

def upperDigits : List Char := "0123456789ABCDEF".toList

/-- A row of ASCII letters and digits, of marks, and of triplets with two upper-case digits. -/
inductive Encoded (marks : List Char) : List Char → Prop where
  | empty : Encoded marks []
  | kept {c : Char} {cs : List Char} : c.isAlphanum = true ∨ c ∈ marks → Encoded marks cs →
      Encoded marks (c :: cs)
  | triplet {high low : Char} {cs : List Char} : high ∈ upperDigits → low ∈ upperDigits →
      Encoded marks cs → Encoded marks ('%' :: high :: low :: cs)

/-- An encoder that keeps ASCII letters and digits and its marks, and from which every text can be
read back. -/
structure Faithful (marks : List Char) (encoder : String → String) : Prop where
  encoded (text : String) : Encoded marks (encoder text).toList
  decode_eq (text : String) : decode (encoder text).toList = text.toUTF8.data.toList
  injective : Function.Injective encoder
  keeps (front back : String) (c : Char) : c.isAlphanum = true ∨ c ∈ marks →
    encoder (front ++ String.singleton c ++ back) =
      encoder front ++ String.singleton c ++ encoder back
  percent (front back : String) : encoder (front ++ "%" ++ back) =
    encoder front ++ "%25" ++ encoder back

variable {marks : List Char} {c : Char} {b : UInt8} {cs ds : List Char}

theorem isKept_iff : isKept marks c = true ↔ c.isAlphanum = true ∨ c ∈ marks := by
  simp [isKept]

theorem upperDigit_mem {n : Nat} (small : n < 16) : Hex.upperDigit n ∈ upperDigits := by
  have all : ∀ m ∈ List.range 16, Hex.upperDigit m ∈ upperDigits := by decide
  exact all n (List.mem_range.mpr small)

theorem ascii_componentMarks : ∀ c ∈ componentMarks, c.toNat < 128 := by
  have all : componentMarks.all (fun c => decide (c.toNat < 128)) = true := by decide
  simpa only [List.all_eq_true, decide_eq_true_eq] using all

theorem ascii_escapeMarks : ∀ c ∈ escapeMarks, c.toNat < 128 := by
  have all : escapeMarks.all (fun c => decide (c.toNat < 128)) = true := by decide
  simpa only [List.all_eq_true, decide_eq_true_eq] using all

/-- Both digits of a byte. -/
theorem nibbles_lt (b : UInt8) : b.toNat / 16 < 16 ∧ b.toNat % 16 < 16 := by
  have small : b.toNat < 256 := UInt8.toNat_lt b
  omega

theorem toNat_ofUInt8 (b : UInt8) : (Char.ofUInt8 b).toNat = b.toNat := UInt8.toNat_toUInt32 b

/-- A kept character has a single byte. -/
theorem toNat_lt_of_isKept (ascii : ∀ c ∈ marks, c.toNat < 128) (kept : isKept marks c = true) :
    c.toNat < 128 := by
  rcases isKept_iff.mp kept with letter | mark
  · rcases (Bool.or_eq_true _ _).mp letter with alpha | digit
    · have range := Text.isAlpha_iff_toNat.mp alpha
      omega
    · have high : c.toNat ≤ 57 := (Char.isDigit_iff_toNat.mp digit).2
      omega
  · exact ascii c mark

/-! ### The form of what is written -/

theorem Encoded.append (front : Encoded marks cs) (back : Encoded marks ds) :
    Encoded marks (cs ++ ds) := by
  induction front with
  | empty => exact back
  | kept stays _ ih => exact .kept stays ih
  | triplet high low _ ih => exact .triplet high low ih

theorem encoded_byte (marks : List Char) (b : UInt8) : Encoded marks (encodeByte marks b) := by
  unfold encodeByte
  split
  case isTrue kept => exact .kept (isKept_iff.mp kept) .empty
  case isFalse =>
    obtain ⟨high, low⟩ := nibbles_lt b
    exact .triplet (upperDigit_mem high) (upperDigit_mem low) .empty

theorem encoded_bytes (marks : List Char) (bytes : List UInt8) :
    Encoded marks (bytes.flatMap (encodeByte marks)) := by
  induction bytes with
  | nil => exact .empty
  | cons b bytes ih =>
      rw [List.flatMap_cons]
      exact (encoded_byte marks b).append ih

/-- An encoded text holds nothing but letters, digits, marks and percent signs. -/
theorem Encoded.mem (encoded : Encoded marks cs) (member : c ∈ cs) :
    c.isAlphanum = true ∨ c ∈ marks ∨ c = '%' := by
  have digit {d : Char} (upper : d ∈ upperDigits) : d.isAlphanum = true := by
    have all : upperDigits.all Char.isAlphanum = true := by decide
    exact List.all_eq_true.mp all d upper
  induction encoded with
  | empty => cases member
  | kept stays _ ih =>
      rcases List.mem_cons.mp member with rfl | later
      · exact stays.imp_right .inl
      · exact ih later
  | triplet high low _ ih =>
      simp only [List.mem_cons] at member
      rcases member with rfl | rfl | rfl | later
      · exact .inr (.inr rfl)
      · exact .inl (digit high)
      · exact .inl (digit low)
      · exact ih later

/-! ### Reading back -/

theorem decode_cons_of_ne (other : c ≠ '%') (cs : List Char) :
    decode (c :: cs) = String.utf8EncodeChar c ++ decode cs := by
  rw [decode]
  intro _ _ _ sign _
  exact other sign

theorem decode_triplet (b : UInt8) (cs : List Char) :
    decode ('%' :: (Hex.upperByte b ++ cs)) = b :: decode cs := by
  obtain ⟨high, low⟩ := nibbles_lt b
  have byte : UInt8.ofNat (16 * (b.toNat / 16) + b.toNat % 16) = b := by
    rw [Nat.div_add_mod, UInt8.ofNat_toNat]
  change decode ('%' :: Hex.upperDigit (b.toNat / 16) :: Hex.upperDigit (b.toNat % 16) :: cs) = _
  rw [decode, Hex.value?_upperDigit high, Hex.value?_upperDigit low]
  simp only [byte]

/-- A kept character would be misread only if it were the percent sign. -/
theorem decode_encodeByte (ascii : ∀ c ∈ marks, c.toNat < 128) (sign : '%' ∉ marks) (b : UInt8)
    (cs : List Char) : decode (encodeByte marks b ++ cs) = b :: decode cs := by
  unfold encodeByte
  split
  case isTrue kept =>
    have other : Char.ofUInt8 b ≠ '%' := by
      intro same
      rw [same] at kept
      rcases isKept_iff.mp kept with letter | mark
      · cases letter
      · exact sign mark
    have small : (Char.ofUInt8 b).toNat < 128 := toNat_lt_of_isKept ascii kept
    rw [List.singleton_append, decode_cons_of_ne other, NumberText.utf8EncodeChar_of_lt small,
      toNat_ofUInt8, UInt8.ofNat_toNat]
    rfl
  case isFalse => exact decode_triplet b cs

theorem decode_bytes (ascii : ∀ c ∈ marks, c.toNat < 128) (sign : '%' ∉ marks)
    (bytes : List UInt8) : decode (bytes.flatMap (encodeByte marks)) = bytes := by
  induction bytes with
  | nil => rfl
  | cons b bytes ih => rw [List.flatMap_cons, decode_encodeByte ascii sign, ih]

/-! ### Texts -/

section

variable {encoder : Encoder}

theorem toUTF8_append (front back : String) : (front ++ back).toUTF8.data.toList =
    front.toUTF8.data.toList ++ back.toUTF8.data.toList := by
  simp

theorem encoder_append (lawful : encoder.Lawful) (ascii : ∀ c ∈ marks, c.toNat < 128)
    (front back : String) :
    encoder marks (front ++ back) = encoder marks front ++ encoder marks back := by
  apply String.toList_inj.mp
  rw [String.toList_append, lawful.toList_eq _ _ ascii, lawful.toList_eq _ _ ascii,
    lawful.toList_eq _ _ ascii, toUTF8_append, List.flatMap_append]

/-- A character of one byte. -/
theorem encoder_singleton (lawful : encoder.Lawful) (ascii : ∀ c ∈ marks, c.toNat < 128)
    (small : c.toNat < 128) : (encoder marks (String.singleton c)).toList =
      encodeByte marks (UInt8.ofNat c.toNat) := by
  have bytes : (String.singleton c).toUTF8.data.toList = [UInt8.ofNat c.toNat] := by
    rw [String.singleton_eq_ofList, String.toUTF8_eq_toByteArray, NumberText.toByteArray_ofList,
      NumberText.encode_cons, NumberText.utf8EncodeChar_of_lt small]
    rfl
  rw [lawful.toList_eq _ _ ascii, bytes, List.flatMap_singleton]

theorem encoder_kept (lawful : encoder.Lawful) (ascii : ∀ c ∈ marks, c.toNat < 128)
    (kept : isKept marks c = true) : encoder marks (String.singleton c) = String.singleton c := by
  have small := toNat_lt_of_isKept ascii kept
  apply String.toList_inj.mp
  rw [encoder_singleton lawful ascii small, encodeByte, NumberText.ofUInt8_toNat small, if_pos kept,
    String.toList_singleton]

theorem encoder_percent (lawful : encoder.Lawful) (ascii : ∀ c ∈ marks, c.toNat < 128)
    (sign : '%' ∉ marks) : encoder marks "%" = "%25" := by
  have lost : ¬ isKept marks '%' = true := by
    rw [isKept_iff]
    rintro (letter | mark)
    · cases letter
    · exact sign mark
  apply String.toList_inj.mp
  rw [show "%" = String.singleton '%' from rfl, encoder_singleton lawful ascii (by decide),
    encodeByte, NumberText.ofUInt8_toNat (by decide), if_neg lost]
  rfl

theorem decode_encoder (lawful : encoder.Lawful) (ascii : ∀ c ∈ marks, c.toNat < 128)
    (sign : '%' ∉ marks) (text : String) :
    decode (encoder marks text).toList = text.toUTF8.data.toList := by
  rw [lawful.toList_eq _ _ ascii, decode_bytes ascii sign]

/-- Encoding loses nothing as long as the percent sign itself is no mark. -/
theorem Encoder.Lawful.faithful (lawful : encoder.Lawful) (ascii : ∀ c ∈ marks, c.toNat < 128)
    (sign : '%' ∉ marks) : Faithful marks (encoder marks) where
  encoded text := by
    rw [lawful.toList_eq _ _ ascii]
    exact encoded_bytes marks _
  decode_eq := decode_encoder lawful ascii sign
  injective := by
    intro text other same
    have bytes : text.toUTF8.data.toList = other.toUTF8.data.toList := by
      rw [← decode_encoder lawful ascii sign, ← decode_encoder lawful ascii sign, same]
    apply String.toByteArray_inj.mp
    exact ByteArray.ext (Array.toList_inj.mp bytes)
  keeps front back c stays := by
    rw [encoder_append lawful ascii, encoder_append lawful ascii,
      encoder_kept lawful ascii (isKept_iff.mpr stays)]
  percent front back := by
    rw [encoder_append lawful ascii, encoder_append lawful ascii,
      encoder_percent lawful ascii sign]

end

end StyleFunctions.Percent
