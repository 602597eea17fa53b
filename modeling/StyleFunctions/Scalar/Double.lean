import StyleFunctions.Decimal.Shortest
import StyleFunctions.Scalar.Basic

/-! Doubles as numbers of a style sheet. -/

namespace StyleFunctions

instance : Scalar Float where
  decideLT := Float.decLt
  decideLE := Float.decLe
  ofDecimal := Binary64.ofDecimal
  abs := Float.abs
  floor := Binary64.floor
  ceil := Binary64.ceil
  round := Binary64.round
  trunc := Binary64.trunc
  rem := Binary64.rem
  isNaN := Float.isNaN
  isFinite := Float.isFinite
  order := Binary64.order
  toNat := Binary64.toNat

instance : Elementary Float where
  pi := Scalar.ofDecimal ⟨false, 3141592653589793, -15⟩
  sqrt := Float.sqrt
  pow := Float.pow
  sin := Float.sin
  cos := Float.cos
  tan := Float.tan
  asin := Float.asin
  acos := Float.acos
  atan := Float.atan

instance : Numeral Float where
  text x := .ofList (Binary64.text x)

end StyleFunctions
