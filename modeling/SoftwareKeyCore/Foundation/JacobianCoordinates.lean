import Mathlib

/-!
# Points in Jacobian coordinates

The points of a curve `y ^ 2 = x ^ 3 + a * x + b` over a field of characteristic other than two,
given by triples: `(x, y, z)` with `z ≠ 0` stands for the affine point `(x / z ^ 2, y / z ^ 3)`,
and `z = 0` for the point at infinity. `double` and `add` are the usual formulas with their case
distinctions. `existsUnique_represents_iff` says which triples stand for a point of a curve that is
not singular. `represents_double` and `represents_add` say that the formulas compute the group law
of the curve, in every case.
-/

set_option autoImplicit false
set_option relaxedAutoImplicit false

namespace SoftwareKeyCore

open WeierstrassCurve

/-- Jacobian coordinates. -/
@[ext] structure JacobianTriple (F : Type) where
  x : F
  y : F
  z : F
  deriving DecidableEq, Repr

namespace JacobianTriple

variable {F : Type} [Field F]

/-! ### The curve -/

/-- The curve `y ^ 2 = x ^ 3 + a * x + b`. -/
def shortCurve (a b : F) : Affine F where
  a₁ := 0
  a₂ := 0
  a₃ := 0
  a₄ := a
  a₆ := b

/-- The triple stands for the point of the curve. -/
def Represents {a b : F} (triple : JacobianTriple F) : (shortCurve a b).Point → Prop
  | .zero => triple.z = 0
  | .some x y _ => triple.z ≠ 0 ∧ triple.x = x * triple.z ^ 2 ∧ triple.y = y * triple.z ^ 3

section Curve

variable {a b : F}

theorem negY_shortCurve (x y : F) : (shortCurve a b).negY x y = -y := by
  simp [shortCurve, Affine.negY]

theorem addX_shortCurve (x₁ x₂ slope : F) :
    (shortCurve a b).addX x₁ x₂ slope = slope ^ 2 - x₁ - x₂ := by
  simp [shortCurve, Affine.addX]

theorem addY_shortCurve (x₁ x₂ y₁ slope : F) :
    (shortCurve a b).addY x₁ x₂ y₁ slope = slope * (x₁ - (slope ^ 2 - x₁ - x₂)) - y₁ := by
  simp [shortCurve, Affine.addY, Affine.negAddY, Affine.negY, Affine.addX]
  ring

theorem equation_shortCurve_iff (x y : F) :
    (shortCurve a b).Equation x y ↔ y ^ 2 = x ^ 3 + a * x + b := by
  simp [Affine.equation_iff, shortCurve]

/-- On a curve with nonzero discriminant every point of the equation is nonsingular. -/
theorem nonsingular_shortCurve {x y : F} (htwo : (2 : F) ≠ 0)
    (hdiscriminant : 4 * a ^ 3 + 27 * b ^ 2 ≠ 0) (hequation : y ^ 2 = x ^ 3 + a * x + b) :
    (shortCurve a b).Nonsingular x y := by
  have hdelta : (shortCurve a b).Δ = -2 ^ 4 * (4 * a ^ 3 + 27 * b ^ 2) := by
    simp only [shortCurve, WeierstrassCurve.Δ, b₂, b₄, b₆, b₈]
    ring
  refine (Affine.equation_iff_nonsingular_of_Δ_ne_zero ?_).mp
    ((equation_shortCurve_iff x y).mpr hequation)
  rw [hdelta]
  exact mul_ne_zero (neg_ne_zero.mpr (pow_ne_zero 4 htwo)) hdiscriminant

theorem represents_zero_iff {triple : JacobianTriple F} :
    triple.Represents (0 : (shortCurve a b).Point) ↔ triple.z = 0 :=
  Iff.rfl

/-- A triple stands for the point at infinity exactly when `z = 0`. -/
theorem Represents.z_eq_zero_iff {triple : JacobianTriple F} {point : (shortCurve a b).Point}
    (hpoint : triple.Represents point) : triple.z = 0 ↔ point = 0 := by
  cases point with
  | zero => exact iff_of_true hpoint rfl
  | some x y hxy => exact iff_of_false hpoint.1 (Affine.Point.some_ne_zero hxy)

/-- A triple stands for at most one point. -/
theorem Represents.unique {triple : JacobianTriple F} {point point' : (shortCurve a b).Point}
    (hpoint : triple.Represents point) (hpoint' : triple.Represents point') : point = point' := by
  cases point with
  | zero => exact (hpoint'.z_eq_zero_iff.mp hpoint).symm
  | some x y hxy =>
    cases point' with
    | zero => exact absurd hpoint' hpoint.1
    | some x' y' hxy' =>
      obtain ⟨hz, hx, hy⟩ := hpoint
      obtain ⟨-, hx', hy'⟩ := hpoint'
      obtain rfl : x = x' := mul_right_cancel₀ (pow_ne_zero 2 hz) (hx.symm.trans hx')
      obtain rfl : y = y' := mul_right_cancel₀ (pow_ne_zero 3 hz) (hy.symm.trans hy')
      rfl

/-- The triples that stand for a point of a curve with nonzero discriminant: those with `z = 0`
and those of the equation. -/
theorem existsUnique_represents_iff (htwo : (2 : F) ≠ 0)
    (hdiscriminant : 4 * a ^ 3 + 27 * b ^ 2 ≠ 0) (triple : JacobianTriple F) :
    (∃! point : (shortCurve a b).Point, triple.Represents point) ↔
      triple.z = 0 ∨ triple.y ^ 2 =
        triple.x ^ 3 + a * triple.x * triple.z ^ 4 + b * triple.z ^ 6 := by
  constructor
  · rintro ⟨point, hpoint, -⟩
    cases point with
    | zero => exact Or.inl hpoint
    | some x y hxy =>
      obtain ⟨hz, hx, hy⟩ := hpoint
      have hequation := (equation_shortCurve_iff x y).mp hxy.1
      right
      rw [hx, hy]
      linear_combination triple.z ^ 6 * hequation
  · intro htriple
    by_cases hz : triple.z = 0
    · exact ⟨0, hz, fun point hpoint ↦ hpoint.z_eq_zero_iff.mp hz⟩
    · have hequation : (triple.y / triple.z ^ 3) ^ 2 = (triple.x / triple.z ^ 2) ^ 3 +
          a * (triple.x / triple.z ^ 2) + b := by
        have htriple := htriple.resolve_left hz
        field_simp
        linear_combination htriple
      have hx := (div_mul_cancel₀ triple.x (pow_ne_zero 2 hz)).symm
      have hy := (div_mul_cancel₀ triple.y (pow_ne_zero 3 hz)).symm
      exact ⟨.some _ _ (nonsingular_shortCurve htwo hdiscriminant hequation), ⟨hz, hx, hy⟩,
        fun point hpoint ↦ hpoint.unique ⟨hz, hx, hy⟩⟩

/-- The affine `x` over a denominator that two triples share. -/
theorem Represents.x_mul_sq {triple : JacobianTriple F} {x y : F}
    {hxy : (shortCurve a b).Nonsingular x y} (hpoint : triple.Represents (.some x y hxy)) (z : F) :
    triple.x * z ^ 2 = x * (triple.z * z) ^ 2 := by
  rw [hpoint.2.1]
  ring

/-- The affine `y` over a denominator that two triples share. -/
theorem Represents.y_mul_cube {triple : JacobianTriple F} {x y : F}
    {hxy : (shortCurve a b).Nonsingular x y} (hpoint : triple.Represents (.some x y hxy)) (z : F) :
    triple.y * z * z ^ 2 = y * (triple.z * z) ^ 3 := by
  rw [hpoint.2.2]
  ring

theorem Represents.y_eq_zero_iff {triple : JacobianTriple F} {x y : F}
    {hxy : (shortCurve a b).Nonsingular x y} (hpoint : triple.Represents (.some x y hxy)) :
    triple.y = 0 ↔ y = 0 := by
  rw [hpoint.2.2, mul_eq_zero, or_iff_left (pow_ne_zero 3 hpoint.1)]

end Curve

/-! ### Arithmetic -/

variable [DecidableEq F]

/-- A triple for the point at infinity. -/
def infinity : JacobianTriple F :=
  ⟨0, 1, 0⟩

/-- The point doubled. -/
def double (a : F) (point : JacobianTriple F) : JacobianTriple F :=
  if point.z = 0 ∨ point.y = 0 then infinity
  else
    let yyyy := (point.y ^ 2) ^ 2
    let s := 2 * ((point.x + point.y ^ 2) ^ 2 - point.x ^ 2 - yyyy)
    let m := 3 * point.x ^ 2 + a * (point.z ^ 2) ^ 2
    let x := m ^ 2 - 2 * s
    ⟨x, m * (s - x) - 8 * yyyy, 2 * (point.y * point.z)⟩

/-- The sum of two points. -/
def add (a : F) (left right : JacobianTriple F) : JacobianTriple F :=
  if left.z = 0 then right
  else if right.z = 0 then left
  else
    let u₁ := left.x * right.z ^ 2
    let u₂ := right.x * left.z ^ 2
    let s₁ := left.y * right.z * right.z ^ 2
    let s₂ := right.y * left.z * left.z ^ 2
    if u₁ = u₂ then if s₁ = s₂ then double a left else infinity
    else
      let h := u₂ - u₁
      let i := (2 * h) ^ 2
      let j := h * i
      let r := 2 * (s₂ - s₁)
      let v := u₁ * i
      let x := r ^ 2 - j - 2 * v
      ⟨x, r * (v - x) - 2 * (s₁ * j),
        ((left.z + right.z) ^ 2 - left.z ^ 2 - right.z ^ 2) * h⟩

variable {a b : F} (htwo : (2 : F) ≠ 0)
include htwo

/-- Doubling a point that is not of order two follows its tangent. -/
theorem represents_double_of_y_ne_zero {triple : JacobianTriple F} {x y : F}
    {hxy : (shortCurve a b).Nonsingular x y} (hpoint : triple.Represents (.some x y hxy))
    (hyne : y ≠ 0) :
    (triple.double a).Represents (.some x y hxy + .some x y hxy : (shortCurve a b).Point) := by
  have hyne' : triple.y ≠ 0 := hpoint.y_eq_zero_iff.not.mpr hyne
  obtain ⟨hz, hx, hy⟩ := hpoint
  have hself : y ≠ (shortCurve a b).negY x y := by
    rw [negY_shortCurve]
    intro hneg
    have hdouble : 2 * y = 0 := by linear_combination hneg
    exact (mul_ne_zero htwo hyne) hdouble
  have hslope : (shortCurve a b).slope x x y y * (2 * y) = 3 * x ^ 2 + a := by
    rw [Affine.slope_of_Y_ne rfl hself, negY_shortCurve, sub_neg_eq_add, ← two_mul,
      div_mul_cancel₀ _ (mul_ne_zero htwo hyne)]
    simp [shortCurve]
  unfold double
  rw [if_neg (not_or.mpr ⟨hz, hyne'⟩), Affine.Point.add_self_of_Y_ne hself]
  have hx' : (3 * triple.x ^ 2 + a * (triple.z ^ 2) ^ 2) ^ 2 -
      2 * (2 * ((triple.x + triple.y ^ 2) ^ 2 - triple.x ^ 2 - (triple.y ^ 2) ^ 2)) =
      ((shortCurve a b).slope x x y y ^ 2 - x - x) * (2 * (triple.y * triple.z)) ^ 2 := by
    rw [hx, hy]
    linear_combination (-triple.z ^ 8 *
      (3 * x ^ 2 + a + (shortCurve a b).slope x x y y * (2 * y))) * hslope
  refine ⟨mul_ne_zero htwo (mul_ne_zero hyne' hz), ?_, ?_⟩
  · rw [addX_shortCurve]
    exact hx'
  · rw [addY_shortCurve]
    dsimp only
    rw [hx', hx, hy]
    linear_combination (-4 * y ^ 2 * triple.z ^ 12 *
      (x - ((shortCurve a b).slope x x y y ^ 2 - x - x))) * hslope

/-- Doubling is correct, for the point at infinity and points of order two as well. -/
theorem represents_double {triple : JacobianTriple F} {point : (shortCurve a b).Point}
    (hpoint : triple.Represents point) : (triple.double a).Represents (point + point) := by
  cases point with
  | zero =>
    have hz : triple.z = 0 := hpoint
    rw [double, if_pos (Or.inl hz)]
    exact represents_zero_iff.mpr rfl
  | some x y hxy =>
    by_cases hyzero : y = 0
    · have hself : y = (shortCurve a b).negY x y := by
        rw [negY_shortCurve, hyzero, neg_zero]
      rw [double, if_pos (Or.inr (hpoint.y_eq_zero_iff.mpr hyzero)),
        Affine.Point.add_self_of_Y_eq hself]
      exact represents_zero_iff.mpr rfl
    · exact represents_double_of_y_ne_zero htwo hpoint hyzero

section Finite

variable {left right : JacobianTriple F} {x₁ y₁ x₂ y₂ : F}
  {hxy₁ : (shortCurve a b).Nonsingular x₁ y₁} {hxy₂ : (shortCurve a b).Nonsingular x₂ y₂}

/-- Adding points that share `x` doubles a point or cancels opposite ones. -/
theorem represents_add_of_x_eq (hleft : left.Represents (.some x₁ y₁ hxy₁))
    (hright : right.Represents (.some x₂ y₂ hxy₂)) (hx : x₁ = x₂) :
    (left.add a right).Represents
      (.some x₁ y₁ hxy₁ + .some x₂ y₂ hxy₂ : (shortCurve a b).Point) := by
  subst hx
  have hzzz : (left.z * right.z) ^ 3 ≠ 0 := pow_ne_zero 3 (mul_ne_zero hleft.1 hright.1)
  unfold add
  rw [if_neg hleft.1, if_neg hright.1]
  dsimp only
  rw [hleft.x_mul_sq, hleft.y_mul_cube, hright.x_mul_sq, hright.y_mul_cube,
    mul_comm right.z left.z, if_pos rfl]
  by_cases hy : y₁ = y₂
  · subst hy
    rw [if_pos rfl]
    exact represents_double htwo hleft
  · have hopposite := (Affine.Y_eq_of_X_eq hxy₁.1 hxy₂.1 rfl).resolve_left hy
    rw [if_neg (fun hequal ↦ hy (mul_right_cancel₀ hzzz hequal)),
      Affine.Point.add_of_Y_eq rfl hopposite]
    exact represents_zero_iff.mpr rfl

/-- Adding points with different `x` follows their chord. -/
theorem represents_add_of_x_ne (hleft : left.Represents (.some x₁ y₁ hxy₁))
    (hright : right.Represents (.some x₂ y₂ hxy₂)) (hx : x₁ ≠ x₂) :
    (left.add a right).Represents
      (.some x₁ y₁ hxy₁ + .some x₂ y₂ hxy₂ : (shortCurve a b).Point) := by
  have hzz : (left.z * right.z) ^ 2 ≠ 0 := pow_ne_zero 2 (mul_ne_zero hleft.1 hright.1)
  have hslope : (shortCurve a b).slope x₁ x₂ y₁ y₂ * (x₁ - x₂) = y₁ - y₂ := by
    rw [Affine.slope_of_X_ne hx, div_mul_cancel₀ _ (sub_ne_zero.mpr hx)]
  unfold add
  rw [if_neg hleft.1, if_neg hright.1]
  dsimp only
  rw [hleft.x_mul_sq, hleft.y_mul_cube, hright.x_mul_sq, hright.y_mul_cube,
    mul_comm right.z left.z, if_neg (fun hequal ↦ hx (mul_right_cancel₀ hzz hequal)),
    Affine.Point.add_of_X_ne hx]
  have hz : (left.z + right.z) ^ 2 - left.z ^ 2 - right.z ^ 2 = 2 * (left.z * right.z) := by ring
  rw [hz]
  generalize hw : left.z * right.z = w at *
  have hx' : (2 * (y₂ * w ^ 3 - y₁ * w ^ 3)) ^ 2 -
      (x₂ * w ^ 2 - x₁ * w ^ 2) * (2 * (x₂ * w ^ 2 - x₁ * w ^ 2)) ^ 2 -
      2 * (x₁ * w ^ 2 * (2 * (x₂ * w ^ 2 - x₁ * w ^ 2)) ^ 2) =
      ((shortCurve a b).slope x₁ x₂ y₁ y₂ ^ 2 - x₁ - x₂) *
        (2 * w * (x₂ * w ^ 2 - x₁ * w ^ 2)) ^ 2 := by
    linear_combination (-4 * w ^ 6 * (y₁ - y₂ +
      (shortCurve a b).slope x₁ x₂ y₁ y₂ * (x₁ - x₂))) * hslope
  have hz' : 2 * w * (x₂ * w ^ 2 - x₁ * w ^ 2) ≠ 0 := by
    rw [← sub_mul]
    exact mul_ne_zero (mul_ne_zero htwo (hw ▸ mul_ne_zero hleft.1 hright.1))
      (mul_ne_zero (sub_ne_zero.mpr (Ne.symm hx)) hzz)
  refine ⟨hz', ?_, ?_⟩
  · rw [addX_shortCurve]
    exact hx'
  · rw [addY_shortCurve]
    dsimp only
    rw [hx']
    linear_combination (8 * w ^ 9 * (x₁ - x₂) ^ 2 *
      (x₁ - ((shortCurve a b).slope x₁ x₂ y₁ y₂ ^ 2 - x₁ - x₂))) * hslope

end Finite

/-- Addition is correct, for the point at infinity, equal and opposite points as well. -/
theorem represents_add {left right : JacobianTriple F} {point point' : (shortCurve a b).Point}
    (hleft : left.Represents point) (hright : right.Represents point') :
    (left.add a right).Represents (point + point') := by
  by_cases hzleft : left.z = 0
  · rw [add, if_pos hzleft, hleft.z_eq_zero_iff.mp hzleft, zero_add]
    exact hright
  by_cases hzright : right.z = 0
  · rw [add, if_neg hzleft, if_pos hzright, hright.z_eq_zero_iff.mp hzright, add_zero]
    exact hleft
  cases point with
  | zero => exact absurd hleft hzleft
  | some x₁ y₁ hxy₁ =>
    cases point' with
    | zero => exact absurd hright hzright
    | some x₂ y₂ hxy₂ =>
      by_cases hx : x₁ = x₂
      · exact represents_add_of_x_eq htwo hleft hright hx
      · exact represents_add_of_x_ne htwo hleft hright hx

end JacobianTriple

end SoftwareKeyCore
