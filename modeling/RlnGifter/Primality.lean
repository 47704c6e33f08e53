/-
Certificates of primality by Lucas's test.  Each step names a number, the primes that the
number less one is the product of, and an element of full order modulo it; the primes of
a step are known, or the numbers of earlier steps.
-/
import Mathlib.NumberTheory.LucasPrimality
import RlnGifter.Doubling

namespace RlnGifter

namespace Primality

def mulMod (m a b : Nat) : Option Nat := some (a * b % m)

/-- The power by squaring, reduced after every step. -/
def powMod (m a e : Nat) : Option Nat := doubleAndAdd (mulMod m) e.size e 1 a

/-- Residues below the modulus stand for their classes, written additively. -/
def Residue (m : Nat) (a : Nat) (x : Additive (ZMod m)) : Prop :=
  a < m ∧ (a : ZMod m) = x.toMul

theorem mulMod_adds {m : Nat} (hm : 0 < m) : Adds (Residue m) (mulMod m) := by
  intro a b x y hx hy
  refine ⟨a * b % m, rfl, Nat.mod_lt _ hm, ?_⟩
  rw [toMul_add, ← hx.2, ← hy.2, ZMod.natCast_mod, Nat.cast_mul]

theorem powMod_eq {m a : Nat} (hm : 1 < m) (ha : a < m) (e : Nat) :
    ∃ r, powMod m a e = some r ∧ r < m ∧ (r : ZMod m) = (a : ZMod m) ^ e := by
  have hone : Residue m 1 0 := ⟨hm, by rw [Nat.cast_one, toMul_zero]⟩
  have hbase : Residue m a (Additive.ofMul (a : ZMod m)) := ⟨ha, rfl⟩
  exact doubleAndAdd_size (mulMod_adds (by omega)) hone hbase e

/-- The power is one just where its residue is. -/
theorem powMod_eq_one {m a : Nat} (hm : 1 < m) (ha : a < m) (e : Nat) :
    powMod m a e = some 1 ↔ (a : ZMod m) ^ e = 1 := by
  obtain ⟨r, hr, hlt, hpow⟩ := powMod_eq hm ha e
  have hcast : ((r : ZMod m) = ((1 : Nat) : ZMod m)) ↔ r = 1 := by
    rw [ZMod.natCast_eq_natCast_iff', Nat.mod_eq_of_lt hlt, Nat.mod_eq_of_lt hm]
  rw [hr, ← hpow, Option.some.injEq, ← hcast, Nat.cast_one]

/-- A number, an element modulo it, and the prime factors of the number less one, each as
often as it divides. -/
structure Step where
  number : Nat
  root : Nat
  factors : List Nat

/-- The factors are known, and the element has full order. -/
def Step.Holds (known : List Nat) (s : Step) : Prop :=
  1 < s.number ∧ s.root < s.number ∧ s.factors.prod = s.number - 1 ∧
    powMod s.number s.root (s.number - 1) = some 1 ∧
    ∀ q ∈ s.factors, q ∈ known ∧ powMod s.number s.root ((s.number - 1) / q) ≠ some 1

instance (known : List Nat) (s : Step) : Decidable (s.Holds known) :=
  inferInstanceAs (Decidable (_ ∧ _ ∧ _ ∧ _ ∧ _))

/-- Every step holds, with the numbers of the steps before it known. -/
def Certifies : List Nat → List Step → Prop
  | _, [] => True
  | known, s :: steps => s.Holds known ∧ Certifies (s.number :: known) steps

instance decidableCertifies : (known : List Nat) → (steps : List Step) →
    Decidable (Certifies known steps)
  | _, [] => inferInstanceAs (Decidable True)
  | known, s :: steps =>
      have := decidableCertifies (s.number :: known) steps
      inferInstanceAs (Decidable (_ ∧ _))

theorem Step.Holds.prime {known : List Nat} {s : Step} (h : s.Holds known)
    (hknown : ∀ q ∈ known, q.Prime) : s.number.Prime := by
  obtain ⟨hone, hroot, hprod, hfull, hfactors⟩ := h
  have hpow := powMod_eq_one hone hroot
  apply lucas_primality s.number (s.root : ZMod s.number) ((hpow _).mp hfull)
  intro q hq hdvd
  rw [← hprod] at hdvd
  obtain ⟨f, hf, hqf⟩ := hq.prime.dvd_prod_iff.mp hdvd
  obtain ⟨hmem, hne⟩ := hfactors f hf
  obtain rfl := (Nat.prime_dvd_prime_iff_eq hq (hknown f hmem)).mp hqf
  exact fun hcontra => hne ((hpow _).mpr hcontra)

theorem Certifies.prime {known : List Nat} {steps : List Step} (h : Certifies known steps)
    (hknown : ∀ q ∈ known, q.Prime) : ∀ s ∈ steps, s.number.Prime := by
  induction steps generalizing known with
  | nil => exact fun s hs => absurd hs List.not_mem_nil
  | cons s steps ih =>
      obtain ⟨hs, hrest⟩ := h
      have hprime := hs.prime hknown
      exact List.forall_mem_cons.mpr
        ⟨hprime, ih hrest (List.forall_mem_cons.mpr ⟨hprime, hknown⟩)⟩

end Primality

end RlnGifter
