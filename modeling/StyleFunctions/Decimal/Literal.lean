import StyleFunctions.Decimal.Basic

/-!
Number literals. `NumberText.scan` cuts the longest sign, digits, points and exponent off a text;
`NumberText.decimal?` reads them as a number when they have the form of one.
-/

namespace StyleFunctions

/-- The parts of a text that may be a number. -/
structure NumberText where
  /-- Empty, `+` or `-`. -/
  sign : List Char
  /-- Digits and points, in any order. -/
  mantissa : List Char
  /-- Empty, or a mark, an optional sign and digits. -/
  exponent : List Char
  deriving DecidableEq, Repr

namespace NumberText

def isSign (c : Char) : Bool := c == '+' || c == '-'

def isExponentMark (c : Char) : Bool := c == 'e' || c == 'E'

def isMantissa (c : Char) : Bool := c.isDigit || c == '.'

def chars (n : NumberText) : List Char := n.sign ++ n.mantissa ++ n.exponent

/-- Cuts off a sign, if there is one. -/
def spanSign : List Char → List Char × List Char
  | c :: cs => if isSign c then ([c], cs) else ([], c :: cs)
  | [] => ([], [])

/-- Cuts off an exponent. A mark starts one only when digits follow it, perhaps after a sign;
otherwise it begins the unit. -/
def spanExponent : List Char → List Char × List Char
  | c :: cs =>
    let (sign, rest) := spanSign cs
    let digits := rest.takeWhile Char.isDigit
    if isExponentMark c && !digits.isEmpty then
      (c :: (sign ++ digits), rest.dropWhile Char.isDigit)
    else ([], c :: cs)
  | [] => ([], [])

/-- The longest beginning that may be a number, and the rest of the text. -/
def scan (cs : List Char) : NumberText × List Char :=
  let (sign, rest) := spanSign cs
  let (exponent, unit) := spanExponent (rest.dropWhile isMantissa)
  (⟨sign, rest.takeWhile isMantissa, exponent⟩, unit)

theorem spanSign_append (cs : List Char) : (spanSign cs).1 ++ (spanSign cs).2 = cs := by
  cases cs with
  | nil => rfl
  | cons c cs =>
    simp only [spanSign]
    split <;> rfl

theorem spanExponent_append (cs : List Char) : (spanExponent cs).1 ++ (spanExponent cs).2 = cs := by
  cases cs with
  | nil => rfl
  | cons c cs =>
    simp only [spanExponent]
    split
    · simp [spanSign_append]
    · rfl

/-- Nothing is lost: the number and the unit make up the text. -/
theorem scan_append (cs : List Char) : (scan cs).1.chars ++ (scan cs).2 = cs := by
  have sign := spanSign_append cs
  have exponent := spanExponent_append ((spanSign cs).2.dropWhile isMantissa)
  simp only [scan, chars, List.append_assoc]
  rw [exponent, List.takeWhile_append_dropWhile, sign]

/-- The number that a run of digits denotes. -/
def natOfDigits (ds : List Char) : Nat := ds.foldl (fun n c => 10 * n + (c.toNat - '0'.toNat)) 0

/-- The digits before and after the point: at most one point, and at least one digit. -/
def mantissa? (cs : List Char) : Option (List Char × List Char) :=
  let whole := cs.takeWhile Char.isDigit
  match cs.dropWhile Char.isDigit with
  | [] => if whole.isEmpty then none else some (whole, [])
  | _ :: fraction =>
    if fraction.all Char.isDigit && !(whole.isEmpty && fraction.isEmpty) then some (whole, fraction)
    else none

def exponentValue : List Char → Int
  | [] => 0
  | _ :: cs =>
    let (sign, digits) := spanSign cs
    if sign == ['-'] then -natOfDigits digits else natOfDigits digits

/-- The number, when the mantissa has the form of one. -/
def decimal? (n : NumberText) : Option Decimal :=
  (mantissa? n.mantissa).map fun (whole, fraction) =>
    ⟨n.sign == ['-'], natOfDigits (whole ++ fraction), exponentValue n.exponent - fraction.length⟩

end NumberText

end StyleFunctions
