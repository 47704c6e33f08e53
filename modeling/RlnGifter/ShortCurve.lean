/-
The group of a curve in short form, `y² = x³ + a x + b`, read through the coordinates of
its points: the chord and the tangent give the coordinates of a sum.
-/
import Mathlib.AlgebraicGeometry.EllipticCurve.Affine.Point

namespace RlnGifter

namespace ShortCurve

variable {F : Type} [Field F]

/-- `y² = x³ + a x + b`. -/
def curve (a b : F) : WeierstrassCurve.Affine F := ⟨0, 0, 0, a, b⟩

abbrev Point (a b : F) : Type := (curve a b).Point

variable {a b : F}

/-- The coordinates of a point, which the point at infinity has none of. -/
def coords : Point a b → Option (F × F)
  | .zero => none
  | .some x y _ => some (x, y)

@[simp] theorem coords_zero : coords (0 : Point a b) = none := rfl

theorem coords_injective : Function.Injective (coords (a := a) (b := b)) := by
  intro P Q h
  cases P with
  | zero =>
      cases Q with
      | zero => rfl
      | some x y hxy => cases h
  | some x y hxy =>
      cases Q with
      | zero => cases h
      | some x' y' hxy' =>
          cases h
          rfl

theorem coords_eq_none {P : Point a b} : coords P = none ↔ P = 0 :=
  ⟨fun h => coords_injective (h.trans coords_zero.symm), fun h => h ▸ coords_zero⟩

theorem negY_eq (x y : F) : (curve a b).negY x y = -y := by
  simp [WeierstrassCurve.Affine.negY, curve]

theorem coords_neg (P : Point a b) : coords (-P) = (coords P).map fun p => (p.1, -p.2) := by
  cases P with
  | zero => rfl
  | some x y hxy => exact congrArg (fun y => some (x, y)) (negY_eq x y)

theorem equation_iff {x y : F} : (curve a b).Equation x y ↔ y ^ 2 = x ^ 3 + a * x + b := by
  rw [WeierstrassCurve.Affine.equation_iff]
  simp [curve]

theorem coords_equation {P : Point a b} {x y : F} (h : coords P = some (x, y)) :
    y ^ 2 = x ^ 3 + a * x + b := by
  cases P with
  | zero => cases h
  | some x' y' hxy =>
      cases h
      exact equation_iff.mp hxy.1

/-- On a smooth curve every solution of the equation is a point. -/
theorem exists_coords (hsmooth : (curve a b).Δ ≠ 0) {x y : F}
    (h : y ^ 2 = x ^ 3 + a * x + b) : ∃ P : Point a b, coords P = some (x, y) :=
  ⟨.some x y ((WeierstrassCurve.Affine.equation_iff_nonsingular_of_Δ_ne_zero hsmooth).mp
    (equation_iff.mpr h)), rfl⟩

/-- Points with the same first coordinate are equal or opposite. -/
theorem eq_or_eq_neg {P Q : Point a b} {x y y' : F} (hP : coords P = some (x, y))
    (hQ : coords Q = some (x, y')) : P = Q ∨ P = -Q := by
  have hsq : y ^ 2 = y' ^ 2 := (coords_equation hP).trans (coords_equation hQ).symm
  rcases sq_eq_sq_iff_eq_or_eq_neg.mp hsq with heq | hneg
  · exact .inl (coords_injective (hP.trans (heq ▸ hQ.symm)))
  · refine .inr (coords_injective ?_)
    rw [coords_neg, hQ, hP, hneg]
    rfl

variable [DecidableEq F]

theorem coords_add_opposite {P Q : Point a b} {x y : F} (hP : coords P = some (x, y))
    (hQ : coords Q = some (x, -y)) : coords (P + Q) = none := by
  have hneg : Q = -P := coords_injective (by rw [hQ, coords_neg, hP]; rfl)
  rw [hneg, add_neg_cancel, coords_zero]

/-- The third point of a line through two points, mirrored. -/
theorem coords_add_line {x₁ y₁ x₂ y₂ : F} {h₁ : (curve a b).Nonsingular x₁ y₁}
    {h₂ : (curve a b).Nonsingular x₂ y₂}
    (hxy : ¬(x₁ = x₂ ∧ y₁ = (curve a b).negY x₂ y₂)) {s : F}
    (hslope : (curve a b).slope x₁ x₂ y₁ y₂ = s) :
    coords (.some x₁ y₁ h₁ + .some x₂ y₂ h₂ : Point a b) =
      some (s * s - x₁ - x₂, s * (x₁ - (s * s - x₁ - x₂)) - y₁) := by
  subst hslope
  rw [WeierstrassCurve.Affine.Point.add_some hxy]
  simp only [coords, Option.some.injEq, Prod.mk.injEq, WeierstrassCurve.Affine.addX,
    WeierstrassCurve.Affine.addY, WeierstrassCurve.Affine.negAddY,
    WeierstrassCurve.Affine.negY, curve]
  constructor <;> ring

/-- The chord through points with different first coordinates. -/
theorem coords_add_chord {P Q : Point a b} {x₁ y₁ x₂ y₂ s : F}
    (hP : coords P = some (x₁, y₁)) (hQ : coords Q = some (x₂, y₂)) (hx : x₁ ≠ x₂)
    (hs : s * (x₂ - x₁) = y₂ - y₁) :
    coords (P + Q) = some (s * s - x₁ - x₂, s * (x₁ - (s * s - x₁ - x₂)) - y₁) := by
  cases P with
  | zero => cases hP
  | some x y hxy =>
      cases Q with
      | zero => cases hQ
      | some x' y' hxy' =>
          cases hP
          cases hQ
          apply coords_add_line fun h => hx h.1
          rw [WeierstrassCurve.Affine.slope_of_X_ne hx, div_eq_iff (sub_ne_zero.mpr hx)]
          linear_combination hs

/-- The tangent at a point that is not its own opposite. -/
theorem coords_add_tangent {P : Point a b} {x y s : F} (hP : coords P = some (x, y))
    (hy : y + y ≠ 0) (hs : s * (2 * y) = 3 * x * x + a) :
    coords (P + P) = some (s * s - x - x, s * (x - (s * s - x - x)) - y) := by
  cases P with
  | zero => cases hP
  | some x' y' hxy =>
      cases hP
      have hself : y ≠ (curve a b).negY x y := by
        rw [negY_eq]
        exact fun h => hy (eq_neg_iff_add_eq_zero.mp h)
      apply coords_add_line fun h => hself h.2
      rw [WeierstrassCurve.Affine.slope_of_Y_ne rfl hself, negY_eq,
        div_eq_iff (by rwa [sub_neg_eq_add])]
      simp only [curve]
      linear_combination -hs

end ShortCurve

end RlnGifter
