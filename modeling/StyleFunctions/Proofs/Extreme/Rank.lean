import StyleFunctions.Library.Extreme
import StyleFunctions.Scalar.Double

/-!
The order in which keys come up for an extreme. Among keys of one kind it is total, and the ranking
that the selection uses computes it.
-/

namespace StyleFunctions

def Extreme.Reaches {β : Type} [LE β] : Extreme → β → β → Prop
  | .least, a, b => a ≤ b
  | .greatest, a, b => b ≤ a

namespace SortKey

/-- The first key comes up no later than the second. Any number comes up before a NaN, for both
extremes; other numbers are compared in the total order of doubles, texts by their code points. -/
inductive NoLater (extreme : Extreme) : SortKey Float → SortKey Float → Prop where
  | nan {x y : Float} : y.isNaN = true → NoLater extreme (.number x) (.number y)
  | number {x y : Float} : x.isNaN = false → y.isNaN = false →
      extreme.Reaches (Binary64.rank x) (Binary64.rank y) → NoLater extreme (.number x) (.number y)
  | text {s t : String} : extreme.Reaches s t → NoLater extreme (.text s) (.text t)

inductive SameKind : SortKey Float → SortKey Float → Prop where
  | number (x y : Float) : SameKind (.number x) (.number y)
  | text (s t : String) : SameKind (.text s) (.text t)

variable {extreme : Extreme} {k l m : SortKey Float}

theorem SameKind.symm (same : SameKind k l) : SameKind l k := by
  cases same with
  | number x y => exact .number y x
  | text s t => exact .text t s

theorem noLater_number_iff {x y : Float} :
    NoLater extreme (.number x) (.number y) ↔
      y.isNaN = true ∨ x.isNaN = false ∧ y.isNaN = false ∧
        extreme.Reaches (Binary64.rank x) (Binary64.rank y) := by
  constructor
  · intro before
    cases before with
    | nan last => exact .inl last
    | number left right reaches => exact .inr ⟨left, right, reaches⟩
  · intro either
    rcases either with last | ⟨left, right, reaches⟩
    · exact .nan last
    · exact .number left right reaches

theorem noLater_text_iff {s t : String} :
    NoLater extreme (.text s) (.text t) ↔ extreme.Reaches s t := by
  constructor
  · intro before
    cases before with
    | text reaches => exact reaches
  · exact .text

theorem reaches_trans_int {a b c : Int} (first : extreme.Reaches a b)
    (second : extreme.Reaches b c) : extreme.Reaches a c := by
  cases extreme with
  | least => exact Int.le_trans first second
  | greatest => exact Int.le_trans second first

theorem reaches_trans_text {s t u : String} (first : extreme.Reaches s t)
    (second : extreme.Reaches t u) : extreme.Reaches s u := by
  cases extreme with
  | least => exact String.le_trans first second
  | greatest => exact String.le_trans second first

theorem noLater_trans (first : NoLater extreme k l) (second : NoLater extreme l m) :
    NoLater extreme k m := by
  cases second with
  | text later =>
      cases first with
      | text before => exact .text (reaches_trans_text before later)
  | nan last =>
      cases first with
      | nan _ => exact .nan last
      | number _ _ _ => exact .nan last
  | number middle right later =>
      cases first with
      | nan last => rw [middle] at last; cases last
      | number left _ before => exact .number left right (reaches_trans_int before later)

/-- Two keys of one kind can always be ordered. -/
theorem noLater_total (same : SameKind k l) : NoLater extreme k l ∨ NoLater extreme l k := by
  cases same with
  | text s t =>
      simp only [noLater_text_iff]
      cases extreme with
      | least => exact String.le_total s t
      | greatest => exact String.le_total t s
  | number x y =>
      simp only [noLater_number_iff]
      cases x.isNaN with
      | true => exact .inr (.inl rfl)
      | false =>
          cases y.isNaN with
          | true => exact .inl (.inl rfl)
          | false =>
              have either : extreme.Reaches (Binary64.rank x) (Binary64.rank y) ∨
                  extreme.Reaches (Binary64.rank y) (Binary64.rank x) := by
                cases extreme <;> exact Int.le_total ..
              simpa using either

theorem isLE_compare_text (s t : String) : (compare s t).isLE = true ↔ s ≤ t :=
  isLE_compareOfLessAndEq String.le_antisymm String.not_le String.le_total

theorem isLE_order_number (x y : Float) :
    ((number x).order (number y)).isLE = true ↔ Binary64.rank x ≤ Binary64.rank y :=
  Int.isLE_compare

theorem isLE_rank_iff (same : SameKind k l) :
    (k.rank extreme l).isLE = true ↔ NoLater extreme k l := by
  cases same with
  | text s t =>
      rw [noLater_text_iff]
      cases extreme with
      | least => exact isLE_compare_text s t
      | greatest => exact isLE_compare_text t s
  | number x y =>
      have xNaN : (number x).isNaN = x.isNaN := rfl
      have yNaN : (number y).isNaN = y.isNaN := rfl
      rw [noLater_number_iff]
      simp only [rank, xNaN, yNaN]
      cases x.isNaN with
      | true => cases y.isNaN <;> simp
      | false =>
          cases y.isNaN with
          | true => simp
          | false => cases extreme <;> simp [isLE_order_number, Extreme.Reaches]

theorem order_swap (k l : SortKey Float) : l.order k = (k.order l).swap := by
  cases k with
  | number x =>
      cases l with
      | number y =>
          change compare (Binary64.rank y) (Binary64.rank x) =
            (compare (Binary64.rank x) (Binary64.rank y)).swap
          exact Std.OrientedOrd.eq_swap
      | text t => rfl
  | text s =>
      cases l with
      | number y => rfl
      | text t =>
          change compare t s = (compare s t).swap
          exact Std.OrientedOrd.eq_swap

theorem rank_swap (extreme : Extreme) (k l : SortKey Float) :
    l.rank extreme k = (k.rank extreme l).swap := by
  unfold rank
  cases k.isNaN <;> cases l.isNaN <;> cases extreme <;> simp [order_swap k l]

theorem rank_eq_eq_iff (same : SameKind k l) :
    k.rank extreme l = .eq ↔ NoLater extreme k l ∧ NoLater extreme l k := by
  rw [← isLE_rank_iff same, ← isLE_rank_iff same.symm, rank_swap extreme k l]
  cases k.rank extreme l <;> simp

end SortKey

end StyleFunctions
