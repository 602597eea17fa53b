import StyleFunctions.Library.Standard
import StyleFunctions.Proofs.Binary64.Share
import StyleFunctions.Proofs.Color.Byte
import StyleFunctions.Proofs.Color.Parser
import StyleFunctions.Scalar.Double

/-!
The written forms of colors. An opaque color reads back with its channels rounded to bytes, and a
literal comes back with its alpha in front, in small letters and with two digits for each channel.
-/

namespace StyleFunctions

namespace Hex

/-- The digits of a byte that is given by its number. -/
def pair (n : Nat) : List Char := [digit (n / 16), digit (n % 16)]

theorem byte_eq_pair (b : UInt8) : byte b = pair b.toNat := rfl

theorem byte_ofNat {n : Nat} (small : n ≤ 255) : byte (.ofNat n) = pair n := by
  rw [byte_eq_pair, UInt8.toNat_ofNat', Nat.mod_eq_of_lt (by omega)]

theorem pair_digits {high low : Nat} (small : low < 16) :
    pair (16 * high + low) = [digit high, digit low] := by
  have quotient : (16 * high + low) / 16 = high := by omega
  have rest : (16 * high + low) % 16 = low := by omega
  rw [pair, quotient, rest]

/-- One digit is short for two equal ones. -/
theorem pair_double {n : Nat} (small : n < 16) : pair (17 * n) = [digit n, digit n] := by
  have twice : 17 * n = 16 * n + n := by omega
  rw [twice, pair_digits small]

theorem value_digit {n : Nat} (small : n < 16) : value (digit n) = n := by
  rw [value, value?_digit small]
  rfl

theorem isDigit_digit {n : Nat} (small : n < 16) : IsDigit (digit n) := by
  rw [← isSome_value?_iff, value?_digit small]
  rfl

variable {c : Char}

theorem pair_value (known : IsDigit c) :
    17 * value c ≤ 255 ∧ pair (17 * value c) = [c, c].map Char.toLower := by
  have small := value_lt known
  rw [pair_double small, digit_value known]
  exact ⟨by omega, rfl⟩

theorem pair_values {d : Char} (high : IsDigit c) (low : IsDigit d) :
    16 * value c + value d ≤ 255 ∧ pair (16 * value c + value d) = [c, d].map Char.toLower := by
  have first := value_lt high
  have second := value_lt low
  rw [pair_digits second, digit_value high, digit_value low]
  exact ⟨by omega, rfl⟩

end Hex

namespace ColorKeyword

open Binary64
open Hex (pair)

variable {parser : Parser}

/-- A byte is read from its two digits. -/
theorem double_digits (b : UInt8) :
    double (Hex.digit (b.toNat / 16)) (Hex.digit (b.toNat % 16)) = b := by
  have small : b.toNat < 256 := UInt8.toNat_lt b
  rw [double, Hex.value_digit (by omega), Hex.value_digit (by omega), Nat.div_add_mod,
    UInt8.ofNat_toNat]

theorem channelDigits_isDigit {α : Type} [Scalar α] (c : Rgba α) :
    ∀ d ∈ c.channelDigits, Hex.IsDigit d := by
  have byte (b : UInt8) : ∀ d ∈ Hex.byte b, Hex.IsDigit d := by
    have small : b.toNat < 256 := UInt8.toNat_lt b
    intro d member
    simp only [Hex.byte, List.mem_cons, List.not_mem_nil, or_false] at member
    rcases member with rfl | rfl
    · exact Hex.isDigit_digit (by omega)
    · exact Hex.isDigit_digit (by omega)
  intro d member
  simp only [Rgba.channelDigits, List.mem_append] at member
  rcases member with (red | green) | blue
  · exact byte _ d red
  · exact byte _ d green
  · exact byte _ d blue

/-- The hexadecimal form of a color is read byte by byte. -/
theorem parse_hex {α : Type} [Scalar α] (reads : parser.ReadsLiterals) (c : Rgba α) :
    parser c.hex = some ⟨Rgba.byte c.red, Rgba.byte c.green, Rgba.byte c.blue, 255⟩ := by
  have read := reads.long _ _ _ _ _ _ (channelDigits_isDigit c)
  rw [double_digits, double_digits, double_digits] at read
  exact read

theorem resolve_literal {α : Type} [Scalar α] {text : String} {b : Bytes}
    (literal : IsHexLiteral text.toList) (read : parser text = some b) :
    (resolve parser text : Option (Rgba α)) = some b.color := by
  rw [resolve, (isHexLiteral_iff text).mpr literal, Bool.true_or, if_pos rfl, read, Option.map_some]

/-- The digits of a literal with the alpha in front, two for each channel. -/
def alphaFirst : List Char → List Char
  | [r, g, b] => ['f', 'f', r, r, g, g, b, b]
  | [r, g, b, a] => [a, a, r, r, g, g, b, b]
  | [r, r', g, g', b, b'] => ['f', 'f', r, r', g, g', b, b']
  | [r, r', g, g', b, b', a, a'] => [a, a', r, r', g, g', b, b']
  | _ => []

/-- A full byte of alpha is the alpha of an opaque color. -/
theorem color_full (red green blue : UInt8) :
    (Bytes.color ⟨red, green, blue, 255⟩ : Rgba Float) =
      Rgba.opaqueColor (Scalar.ofNat red.toNat) (Scalar.ofNat green.toNat)
        (Scalar.ofNat blue.toNat) := by
  have full : (Scalar.ofNat 255 / Scalar.ofNat 255 : Float) = Scalar.ofNat 1 :=
    ofNat_div_self (by decide) (by decide)
  exact congrArg (Rgba.mk _ _ _) full

theorem alphaByte_color (b : Bytes) : (b.color : Rgba Float).alphaByte = b.alpha := by
  have small : b.alpha.toNat ≤ 255 := Nat.le_of_lt_succ (UInt8.toNat_lt b.alpha)
  have rounded := round_share (show 0 < 255 by decide) small (by decide)
  have value : (b.color : Rgba Float).alphaByte =
      .ofNat (toNat (Scalar.round (Scalar.clampUnit
        (Scalar.ofNat b.alpha.toNat / Scalar.ofNat 255 : Float) * Scalar.ofNat 255))) :=
    rfl
  rw [value, rounded, toNat_ofWhole (by omega), UInt8.ofNat_toNat]

/-- A color that is made of bytes is written with them. -/
theorem alphaHex_color (b : Bytes) :
    (b.color : Rgba Float).alphaHex =
      .ofList ('#' ::
        (Hex.byte b.alpha ++ (Hex.byte b.red ++ Hex.byte b.green ++ Hex.byte b.blue))) := by
  have byte (n : UInt8) : Rgba.byte (Scalar.ofNat n.toNat : Float) = n := by
    rw [Rgba.byte_ofNat (Nat.le_of_lt_succ (UInt8.toNat_lt n)), UInt8.ofNat_toNat]
  have channels : (b.color : Rgba Float).channelDigits =
      Hex.byte b.red ++ Hex.byte b.green ++ Hex.byte b.blue := by
    change Hex.byte (Rgba.byte (Scalar.ofNat b.red.toNat : Float)) ++
      Hex.byte (Rgba.byte (Scalar.ofNat b.green.toNat : Float)) ++
      Hex.byte (Rgba.byte (Scalar.ofNat b.blue.toNat : Float)) = _
    rw [byte, byte, byte]
  rw [Rgba.alphaHex, alphaByte_color, channels]

theorem byte_single {c : Char} (digit : Hex.IsDigit c) :
    Hex.byte (single c) = [c, c].map Char.toLower := by
  obtain ⟨small, written⟩ := Hex.pair_value digit
  rw [single, Hex.byte_ofNat small, written]

theorem byte_double {c d : Char} (high : Hex.IsDigit c) (low : Hex.IsDigit d) :
    Hex.byte (double c d) = [c, d].map Char.toLower := by
  obtain ⟨small, written⟩ := Hex.pair_values high low
  rw [double, Hex.byte_ofNat small, written]

theorem byte_full : Hex.byte 255 = ['f', 'f'].map Char.toLower := by decide

theorem alphaHex_written {b : Bytes} {rs gs bs as : List Char}
    (r : Hex.byte b.red = rs.map Char.toLower) (g : Hex.byte b.green = gs.map Char.toLower)
    (l : Hex.byte b.blue = bs.map Char.toLower) (a : Hex.byte b.alpha = as.map Char.toLower) :
    (b.color : Rgba Float).alphaHex =
      .ofList ('#' :: (as ++ (rs ++ gs ++ bs)).map Char.toLower) := by
  rw [alphaHex_color, r, g, l, a, List.map_append, List.map_append, List.map_append]

/-- A literal is written with its own digits, in small letters. -/
theorem alphaHex_literal (reads : parser.ReadsLiterals) {digits : List Char}
    (channels : Channels digits) (all : ∀ c ∈ digits, Hex.IsDigit c) :
    ∃ b, parser (.ofList ('#' :: digits)) = some b ∧
      (b.color : Rgba Float).alphaHex =
        .ofList ('#' :: (alphaFirst digits).map Char.toLower) := by
  cases channels with
  | short r g b =>
      have red := byte_single (all r (by simp))
      have green := byte_single (all g (by simp))
      have blue := byte_single (all b (by simp))
      have written := alphaHex_written (b := ⟨single r, single g, single b, 255⟩) red green blue
        byte_full
      exact ⟨_, reads.short r g b all, written⟩
  | shortAlpha r g b a =>
      have red := byte_single (all r (by simp))
      have green := byte_single (all g (by simp))
      have blue := byte_single (all b (by simp))
      have alpha := byte_single (all a (by simp))
      have written := alphaHex_written (b := ⟨single r, single g, single b, single a⟩) red green
        blue alpha
      exact ⟨_, reads.shortAlpha r g b a all, written⟩
  | long r r' g g' b b' =>
      have red := byte_double (all r (by simp)) (all r' (by simp))
      have green := byte_double (all g (by simp)) (all g' (by simp))
      have blue := byte_double (all b (by simp)) (all b' (by simp))
      have written := alphaHex_written (b := ⟨double r r', double g g', double b b', 255⟩) red
        green blue byte_full
      exact ⟨_, reads.long r r' g g' b b' all, written⟩
  | longAlpha r r' g g' b b' a a' =>
      have red := byte_double (all r (by simp)) (all r' (by simp))
      have green := byte_double (all g (by simp)) (all g' (by simp))
      have blue := byte_double (all b (by simp)) (all b' (by simp))
      have alpha := byte_double (all a (by simp)) (all a' (by simp))
      have written := alphaHex_written (b := ⟨double r r', double g g', double b b', double a a'⟩)
        red green blue alpha
      exact ⟨_, reads.longAlpha r r' g g' b b' a a' all, written⟩

/-- What an opaque color is read back as from its written form, and how what a literal stands for is
written. -/
theorem resolveColor_written (reads : parser.ReadsLiterals) :
    (∀ c : Rgba Float, Scalar.ofNat 1 ≤ c.alpha →
      ∃ red green blue : Nat, Rgba.ByteOf c.red red ∧ Rgba.ByteOf c.green green ∧
        Rgba.ByteOf c.blue blue ∧
        (Context.reading parser : Context Float).resolveColor c.text =
          some (Rgba.opaqueColor (Scalar.ofNat red) (Scalar.ofNat green) (Scalar.ofNat blue))) ∧
      ∀ digits : List Char, digits.length ∈ [3, 4, 6, 8] → (∀ c ∈ digits, Hex.IsDigit c) →
        ∃ c : Rgba Float,
          (Context.reading parser).resolveColor (.ofList ('#' :: digits)) = some c ∧
          c.alphaHex = .ofList ('#' :: (alphaFirst digits).map Char.toLower) := by
  constructor
  · intro c full
    refine ⟨_, _, _, Rgba.byteOf_byte c.red, Rgba.byteOf_byte c.green, Rgba.byteOf_byte c.blue, ?_⟩
    have solid : c.text = c.hex := if_pos full
    have literal : IsHexLiteral c.hex.toList := by
      have six : c.channelDigits.length = 6 := rfl
      rw [Rgba.hex, String.toList_ofList]
      exact ⟨c.channelDigits, rfl, by rw [six]; decide, channelDigits_isDigit c⟩
    have asked : (Context.reading parser : Context Float).resolveColor = resolve parser := rfl
    rw [asked, solid, resolve_literal literal (parse_hex reads c), color_full]
  · intro digits length all
    obtain ⟨b, read, written⟩ := alphaHex_literal reads (channels_of_length length) all
    have literal : IsHexLiteral (String.ofList ('#' :: digits)).toList := by
      rw [String.toList_ofList]
      exact ⟨digits, rfl, length, all⟩
    exact ⟨b.color, resolve_literal literal read, written⟩

/-- A half goes up, what is out of range goes to its ends, and an alpha above one is one. -/
theorem resolveColor_written_half :
    Parser.ReadsLiterals ownParser ∧ (Scalar.ofNat 1 : Float) ≤ 2 ∧
      (Context.standard : Context Float).resolveColor (Rgba.mk 127.5 (-3) 300.25 2).text =
        some (Rgba.opaqueColor (Scalar.ofNat 128) (Scalar.ofNat 0) (Scalar.ofNat 255)) ∧
      ∃ c : Rgba Float, (Context.standard : Context Float).resolveColor "#Fa8" = some c ∧
        c.alphaHex = "#ffffaa88" := by
  have full : (Scalar.ofNat 1 : Float) ≤ 2 := by decide +kernel
  obtain ⟨colors, literals⟩ := resolveColor_written readsLiterals_ownParser
  rcases colors ⟨127.5, -3, 300.25, 2⟩ full with ⟨red, green, blue, r, g, b, read⟩
  have half : red = 128 := r.unique (.finite (n := 128) (by decide +kernel) (by decide +kernel))
  have below : green = 0 := g.unique (.finite (n := -3) (by decide +kernel) (by decide +kernel))
  have above : blue = 255 := b.unique (.finite (n := 300) (by decide +kernel) (by decide +kernel))
  rw [half, below, above] at read
  have known : ∀ c ∈ ['F', 'a', '8'], Hex.IsDigit c := by
    have all : ['F', 'a', '8'].all (fun c => decide (Hex.IsDigit c)) = true := by decide
    simpa only [List.all_eq_true, decide_eq_true_eq] using all
  rcases literals ['F', 'a', '8'] (by decide) known with ⟨c, found, written⟩
  have literal : String.ofList ['#', 'F', 'a', '8'] = "#Fa8" := by decide
  have digits : (alphaFirst ['F', 'a', '8']).map Char.toLower =
      ['f', 'f', 'f', 'f', 'a', 'a', '8', '8'] := by decide
  have text : String.ofList ['#', 'f', 'f', 'f', 'f', 'a', 'a', '8', '8'] = "#ffffaa88" := by decide
  rw [literal] at found
  rw [digits, text] at written
  exact ⟨readsLiterals_ownParser, full, read, c, found, written⟩

end ColorKeyword

end StyleFunctions
