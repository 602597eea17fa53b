import StyleFunctions.Proofs.Color.View

/-!
An adjustment sets one coordinate of the view of a color. Where that leads to a view that colors have, the
other coordinates come out as they went in, and the step back by the same amount returns the color.
-/

namespace StyleFunctions

open scoped Exact
open Exact (literal)

namespace Hsl

inductive Coordinate where
  | hue
  | saturation
  | lightness
  | alpha

def read {α : Type} (v : Hsl α) : Coordinate → α
  | .hue => v.hue
  | .saturation => v.saturation
  | .lightness => v.lightness
  | .alpha => v.alpha

def set {α : Type} (v : Hsl α) (coordinate : Coordinate) (x : α) : Hsl α :=
  match coordinate with
  | .hue => { v with hue := x }
  | .saturation => { v with saturation := x }
  | .lightness => { v with lightness := x }
  | .alpha => { v with alpha := x }

section

variable {α : Type} {coordinate other : Coordinate}

theorem read_set (v : Hsl α) (x : α) : (v.set coordinate x).read coordinate = x := by
  cases coordinate <;> rfl

theorem read_set_of_ne (v : Hsl α) (x : α) (kept : other ≠ coordinate) :
    (v.set coordinate x).read other = v.read other := by
  cases coordinate <;> cases other <;> first | rfl | exact absurd rfl kept

theorem set_set (v : Hsl α) (x y : α) : (v.set coordinate x).set coordinate y = v.set coordinate y := by
  cases coordinate <;> rfl

theorem set_read (v : Hsl α) : v.set coordinate (v.read coordinate) = v := by
  cases coordinate <;> rfl

end

variable {K : Type} [Field K] [LinearOrder K] {v : Hsl K} {coordinate : Coordinate} {x : K}

theorem InRange.read_mem (inside : v.InRange) (fraction : coordinate ≠ .hue) :
    v.read coordinate ∈ Set.Icc 0 1 := by
  cases coordinate with
  | hue => exact absurd rfl fraction
  | saturation => exact inside.saturation
  | lightness => exact inside.lightness
  | alpha => exact inside.alpha

theorem InRange.set (inside : v.InRange) (fraction : coordinate ≠ .hue) (unit : x ∈ Set.Icc (0 : K) 1) :
    (v.set coordinate x).InRange := by
  cases coordinate with
  | hue => exact absurd rfl fraction
  | saturation => exact { inside with saturation := unit }
  | lightness => exact { inside with lightness := unit }
  | alpha => exact { inside with alpha := unit }

theorem InRange.set_hue (inside : v.InRange) (turn : x ∈ Set.Ico (0 : K) 360) :
    (v.set .hue x).InRange :=
  { inside with hue := turn }

/-! The coordinates of a view that colors have may be set as long as a color stays colored. -/

theorem Canonical.set_saturation (canonical : v.Canonical) (colored : 0 < v.saturation)
    (share : x ∈ Set.Ioc (0 : K) 1) : (v.set .saturation x).Canonical := by
  refine ⟨canonical.toInRange.set nofun (Set.Ioc_subset_Icc_self share), ?_⟩
  rcases canonical.shown with ⟨_, light⟩ | ⟨grey, _⟩
  · exact .inl ⟨share.1, light⟩
  · exact absurd grey colored.ne'

theorem Canonical.set_lightness (canonical : v.Canonical) (light : x ∈ Set.Icc (0 : K) 1)
    (colored : v.lightness ∈ Set.Ioo 0 1 → x ∈ Set.Ioo 0 1) : (v.set .lightness x).Canonical := by
  refine ⟨canonical.toInRange.set nofun light, ?_⟩
  rcases canonical.shown with ⟨share, between⟩ | grey
  · exact .inl ⟨share, colored between⟩
  · exact .inr grey

theorem Canonical.set_alpha (canonical : v.Canonical) (opacity : x ∈ Set.Icc (0 : K) 1) :
    (v.set .alpha x).Canonical :=
  ⟨canonical.toInRange.set nofun opacity, canonical.shown⟩

end Hsl

namespace Adjustment

open Hsl (Coordinate)

section

variable {α : Type} [Scalar α] {adjustment : Adjustment}

/-- The coordinate that an adjustment sets. -/
def coordinate : Adjustment → Coordinate
  | .saturate | .desaturate => .saturation
  | .lighten | .darken => .lightness
  | .fadeIn | .fadeOut | .fade => .alpha
  | .spin => .hue

/-- What a coordinate is set to before it is restricted to its range. -/
def target (adjustment : Adjustment) (v : Hsl α) (amount : α) : α :=
  match adjustment with
  | .saturate => v.saturation + amount
  | .desaturate => v.saturation - amount
  | .lighten => v.lightness + amount
  | .darken => v.lightness - amount
  | .fadeIn => v.alpha + amount
  | .fadeOut => v.alpha - amount
  | .fade => amount
  | .spin => v.hue + amount

theorem adjust_fraction (fraction : adjustment.coordinate ≠ .hue) (v : Hsl α) (amount : α) :
    adjustment.adjust v amount =
      v.set adjustment.coordinate (Scalar.clampUnit (adjustment.target v amount)) := by
  cases adjustment with
  | spin => exact absurd rfl fraction
  | _ => rfl

theorem adjust_eq_set (adjustment : Adjustment) (v : Hsl α) (amount : α) :
    ∃ x, adjustment.adjust v amount = v.set adjustment.coordinate x := by
  cases adjustment <;> exact ⟨_, rfl⟩

theorem read_adjust {other : Coordinate} (kept : other ≠ adjustment.coordinate) (v : Hsl α)
    (amount : α) : (adjustment.adjust v amount).read other = v.read other := by
  obtain ⟨x, same⟩ := adjustment.adjust_eq_set v amount
  rw [same, Hsl.read_set_of_ne v x kept]

end

/-- A step and the step back. -/
inductive Opposite : Adjustment → Adjustment → Prop where
  | saturate : Opposite .saturate .desaturate
  | desaturate : Opposite .desaturate .saturate
  | lighten : Opposite .lighten .darken
  | darken : Opposite .darken .lighten
  | fadeIn : Opposite .fadeIn .fadeOut
  | fadeOut : Opposite .fadeOut .fadeIn

variable {K : Type} [Field K] [LinearOrder K] [FloorRing K]
  {adjustment there back : Adjustment} {v : Hsl K} {c : Rgba K} {x : K}

theorem adjust_of_target (fraction : adjustment.coordinate ≠ .hue)
    (unit : adjustment.target v x ∈ Set.Icc 0 1) :
    adjustment.adjust v x = v.set adjustment.coordinate (adjustment.target v x) := by
  rw [adjust_fraction fraction, Exact.clampUnit_of_mem unit.1 unit.2]

theorem coordinate_opposite (opposite : Opposite there back) :
    there.coordinate ≠ .hue ∧ back.coordinate = there.coordinate := by
  cases opposite <;> exact ⟨nofun, rfl⟩

theorem target_opposite (opposite : Opposite there back) (v : Hsl K) (x : K) :
    back.target (v.set there.coordinate (there.target v x)) x = v.read there.coordinate := by
  cases opposite with
  | saturate | lighten | fadeIn => exact add_sub_cancel_right _ _
  | desaturate | darken | fadeOut => exact sub_add_cancel _ _

theorem alpha_apply (inside : c.InGamut) (kept : .alpha ≠ adjustment.coordinate) (x : K) :
    (adjustment.apply c x).alpha = c.alpha := by
  have same : (adjustment.adjust (Hsl.ofRgba c) x).alpha = c.alpha := read_adjust kept _ _
  change Scalar.clampUnit (adjustment.adjust (Hsl.ofRgba c) x).alpha = c.alpha
  rw [same, Exact.clampUnit_of_mem inside.alpha.1 inside.alpha.2]

variable [IsStrictOrderedRing K]

/-- An adjusted share is the nearest one to its target. -/
theorem read_adjust_fraction (fraction : adjustment.coordinate ≠ .hue) (v : Hsl K) (x : K) :
    (adjustment.adjust v x).read adjustment.coordinate =
      max 0 (min 1 (adjustment.target v x)) := by
  rw [adjust_fraction fraction, Hsl.read_set, Exact.clampUnit_eq_max]

/-- The channels of a color do not depend on the alpha of its view. -/
theorem apply_of_alpha (inside : c.InGamut) (fades : adjustment.coordinate = .alpha) (x : K) :
    ∃ alpha, adjustment.apply c x = { c with alpha := alpha } := by
  have decoded (a : K) : ((Hsl.ofRgba c).set .alpha a).toRgba =
      { (Hsl.ofRgba c).toRgba with alpha := Scalar.clampUnit a } := rfl
  obtain ⟨a, same⟩ := adjustment.adjust_eq_set (Hsl.ofRgba c) x
  rw [apply, same, fades, decoded, Hsl.toRgba_ofRgba inside]
  exact ⟨_, rfl⟩

theorem inRange_adjust (adjustment : Adjustment) (inside : v.InRange) (amount : K) :
    (adjustment.adjust v amount).InRange := by
  by_cases fraction : adjustment.coordinate = .hue
  · have turn : (0 : K) < 360 := by norm_num
    cases adjustment <;> cases fraction
    apply inside.set_hue
    rw [literal]
    exact ⟨Exact.cyclic_nonneg turn _, Exact.cyclic_lt turn _⟩
  · rw [adjust_fraction fraction]
    exact inside.set fraction (Exact.clampUnit_mem _)

/-- The adjusted view is the view of the adjusted color where colors have it. -/
theorem ofRgba_apply (canonical : (adjustment.adjust (Hsl.ofRgba c) x).Canonical) :
    Hsl.ofRgba (adjustment.apply c x) = adjustment.adjust (Hsl.ofRgba c) x :=
  canonical.ofRgba_toRgba

theorem ofRgba_apply_of_colored (inside : c.InGamut)
    (colored : (adjustment.adjust (Hsl.ofRgba c) x).Colored) :
    Hsl.ofRgba (adjustment.apply c x) = adjustment.adjust (Hsl.ofRgba c) x :=
  ofRgba_apply ⟨inRange_adjust adjustment (Hsl.canonical_ofRgba inside).toInRange x, .inl colored⟩

/-- A step to a view that colors have is undone by the step back. -/
theorem apply_opposite (opposite : Opposite there back) (inside : c.InGamut)
    (canonical :
      ((Hsl.ofRgba c).set there.coordinate (there.target (Hsl.ofRgba c) x)).Canonical) :
    back.apply (there.apply c x) x = c := by
  obtain ⟨fraction, same⟩ := coordinate_opposite opposite
  have unit := canonical.read_mem fraction
  rw [Hsl.read_set] at unit
  have forth := adjust_of_target fraction unit
  have start := (Hsl.canonical_ofRgba inside).read_mem fraction
  -- The second step aims at where the first one began, so neither is cut short.
  rw [← target_opposite opposite _ x] at start
  have home := adjust_of_target (same ▸ fraction) start
  rw [← forth] at canonical
  rw [apply, ofRgba_apply canonical, forth, home, target_opposite opposite, same, Hsl.set_set,
    Hsl.set_read, Hsl.toRgba_ofRgba inside]

/-! Steps of each coordinate that stay among the views that colors have. -/

theorem lightness_back (opposite : Opposite there back) (moves : there.coordinate = .lightness)
    (inside : c.InGamut) (light : there.target (Hsl.ofRgba c) x ∈ Set.Icc 0 1)
    (colored : (Hsl.ofRgba c).lightness ∈ Set.Ioo 0 1 →
      there.target (Hsl.ofRgba c) x ∈ Set.Ioo 0 1) :
    back.apply (there.apply c x) x = c := by
  apply apply_opposite opposite inside
  rw [moves]
  exact (Hsl.canonical_ofRgba inside).set_lightness light colored

theorem saturation_back (opposite : Opposite there back) (moves : there.coordinate = .saturation)
    (inside : c.InGamut) (colored : 0 < (Hsl.ofRgba c).saturation)
    (share : there.target (Hsl.ofRgba c) x ∈ Set.Ioc 0 1) :
    back.apply (there.apply c x) x = c := by
  apply apply_opposite opposite inside
  rw [moves]
  exact (Hsl.canonical_ofRgba inside).set_saturation colored share

theorem alpha_back (opposite : Opposite there back) (moves : there.coordinate = .alpha)
    (inside : c.InGamut) (opacity : there.target (Hsl.ofRgba c) x ∈ Set.Icc 0 1) :
    back.apply (there.apply c x) x = c := by
  apply apply_opposite opposite inside
  rw [moves]
  exact (Hsl.canonical_ofRgba inside).set_alpha opacity

end Adjustment

end StyleFunctions
