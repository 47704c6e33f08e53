/-
ECDSA over any commutative group with a generator whose order divides a prime: what is
signed verifies, the mirrored signature verifies too, and the point of the nonce, or its
mirror image with the mirrored signature, gives back the key.
-/
import Mathlib.Algebra.Field.ZMod
import Mathlib.Tactic.FieldSimp
import Mathlib.Tactic.LinearCombination

namespace RlnGifter

namespace Ecdsa

variable {A : Type} [AddCommGroup A] {n : Nat}

/-- The multiple of a point by a scalar. -/
def scale (k : ZMod n) (P : A) : A := k.val • P

/-- A generator with its order, and the scalar that is read off a point, the same for
opposite points. -/
structure Scheme (A : Type) [AddCommGroup A] (n : Nat) where
  generator : A
  order : n • generator = 0
  scalar : A → ZMod n
  scalar_neg : ∀ P, scalar (-P) = scalar P

section Multiples

variable {P : A}

theorem order_scale (hP : n • P = 0) (k : ZMod n) : n • scale k P = 0 := by
  rw [scale, nsmul_left_comm, hP, nsmul_zero]

theorem order_neg (hP : n • P = 0) : n • -P = 0 := by rw [neg_nsmul, hP, neg_zero]

theorem zero_scale : scale (0 : ZMod n) P = 0 := by rw [scale, ZMod.val_zero, zero_nsmul]

theorem scale_neg (k : ZMod n) (P : A) : scale k (-P) = -scale k P := neg_nsmul P k.val

theorem scale_scale (hP : n • P = 0) (k l : ZMod n) : scale k (scale l P) = scale (k * l) P := by
  rw [scale, scale, scale, ZMod.val_mul, ← nsmul_eq_mod_nsmul _ hP, mul_nsmul']

variable [NeZero n]

theorem add_scale (hP : n • P = 0) (k l : ZMod n) :
    scale (k + l) P = scale k P + scale l P := by
  rw [scale, ZMod.val_add, ← nsmul_eq_mod_nsmul _ hP, add_nsmul]
  rfl

theorem neg_scale (hP : n • P = 0) (k : ZMod n) : scale (-k) P = -scale k P := by
  rw [eq_neg_iff_add_eq_zero, ← add_scale hP, neg_add_cancel, zero_scale]

end Multiples

namespace Scheme

variable (S : Scheme A n)

/-- The key of a secret. -/
def key (d : ZMod n) : A := scale d S.generator

/-- The equation a verifier checks. -/
def Verifies (Q : A) (z r s : ZMod n) : Prop :=
  r ≠ 0 ∧ s ≠ 0 ∧ S.scalar (scale (z * s⁻¹) S.generator + scale (r * s⁻¹) Q) = r

/-- The key that a signature with the point `R` of its nonce was made for. -/
def recovered (R : A) (z r s : ZMod n) : A :=
  scale (s * r⁻¹) R - scale (z * r⁻¹) S.generator

/-- `(r, s)` is the signature of `z` under the secret `d` with the nonce `k`. -/
structure Signs (d z k r s : ZMod n) : Prop where
  point : S.scalar (S.key k) = r
  equation : s * k = z + r * d
  rNonzero : r ≠ 0
  sNonzero : s ≠ 0

variable {S} {d z k r s : ZMod n} {Q R : A}

theorem key_order (S : Scheme A n) (d : ZMod n) : n • S.key d = 0 := order_scale S.order d

variable [Fact n.Prime]

/-- What is signed verifies, as the verifier computes the point of the nonce. -/
theorem Signs.verifies (h : S.Signs d z k r s) : S.Verifies (S.key d) z r s := by
  have hs := h.sNonzero
  have hk : z * s⁻¹ + r * s⁻¹ * d = k := by
    field_simp
    linear_combination -h.equation
  refine ⟨h.rNonzero, h.sNonzero, ?_⟩
  rw [key, scale_scale S.order, ← add_scale S.order, hk]
  exact h.point

/-- The point of the nonce gives back the key. -/
theorem Signs.recovered (h : S.Signs d z k r s) : S.recovered (S.key k) z r s = S.key d := by
  have hr := h.rNonzero
  have hd : s * r⁻¹ * k + -(z * r⁻¹) = d := by
    field_simp
    linear_combination h.equation
  rw [Scheme.recovered, key, scale_scale S.order, sub_eq_add_neg, ← neg_scale S.order,
    ← add_scale S.order, hd]
  rfl

/-- A signature verifies with its `s` mirrored. -/
theorem Verifies.neg (h : S.Verifies Q z r s) (hQ : n • Q = 0) : S.Verifies Q z r (-s) := by
  obtain ⟨hr, hs, hscalar⟩ := h
  refine ⟨hr, neg_ne_zero.mpr hs, ?_⟩
  rw [inv_neg, mul_neg, mul_neg, neg_scale S.order, neg_scale hQ, ← neg_add, S.scalar_neg,
    hscalar]

/-- The mirrored point and the mirrored signature give back the same key. -/
theorem recovered_neg (hR : n • R = 0) : S.recovered (-R) z r (-s) = S.recovered R z r s := by
  rw [recovered, neg_mul, neg_scale (order_neg hR), scale_neg, neg_neg]
  rfl

end Scheme

end Ecdsa

end RlnGifter
