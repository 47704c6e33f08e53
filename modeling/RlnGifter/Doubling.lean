/-
Double and add: a multiple by a number with as many steps as the number has bits.
The operation may fail, and the values it works on may stand for the elements of the
monoid in any way.
-/
import Mathlib.Algebra.Group.Nat.Defs
import Mathlib.Data.Nat.Size

namespace RlnGifter

section Doubling

variable {α M : Type}

/-- The bits of `k` from the lowest: `p` is doubled at each, and added to `r` at those
that are set. -/
def doubleAndAdd (op : α → α → Option α) : Nat → Nat → α → α → Option α
  | 0, _, r, _ => some r
  | fuel + 1, k, r, p =>
      if k = 0 then some r
      else do
        let r ← if k % 2 = 1 then op r p else some r
        let p ← op p p
        doubleAndAdd op fuel (k / 2) r p

/-- An operation that adds what its arguments stand for. -/
def Adds [Add M] (Stands : α → M → Prop) (op : α → α → Option α) : Prop :=
  ∀ {a b : α} {x y : M}, Stands a x → Stands b y → ∃ c, op a b = some c ∧ Stands c (x + y)

variable [AddCommMonoid M] {Stands : α → M → Prop} {op : α → α → Option α}

/-- The loop keeps what the collected value and what is still to be added come to. -/
theorem doubleAndAdd_stands (hop : Adds Stands op) {fuel k : Nat} (hk : k < 2 ^ fuel)
    {r p : α} {x y : M} (hr : Stands r x) (hp : Stands p y) :
    ∃ s, doubleAndAdd op fuel k r p = some s ∧ Stands s (x + k • y) := by
  induction fuel generalizing k r p x y with
  | zero =>
      have hzero : k = 0 := Nat.lt_one_iff.mp hk
      subst hzero
      exact ⟨r, rfl, by rwa [zero_nsmul, add_zero]⟩
  | succ fuel ih =>
      rw [doubleAndAdd]
      by_cases hzero : k = 0
      · subst hzero
        exact ⟨r, if_pos rfl, by rwa [zero_nsmul, add_zero]⟩
      · rw [if_neg hzero]
        have hhalf : k / 2 < 2 ^ fuel := by
          rw [Nat.pow_succ] at hk
          omega
        obtain ⟨p', hdouble, hp'⟩ := hop hp hp
        have hy : ∀ j : Nat, j • (y + y) = (2 * j) • y := by
          intro j
          rw [← two_nsmul, ← mul_nsmul, Nat.mul_comm]
        by_cases hodd : k % 2 = 1
        · obtain ⟨r', hadd, hr'⟩ := hop hr hp
          obtain ⟨s, hs, hstands⟩ := ih hhalf hr' hp'
          refine ⟨s, by rw [if_pos hodd, hadd, hdouble]; exact hs, ?_⟩
          have hsplit : k = 1 + 2 * (k / 2) := by omega
          rw [hy, add_assoc] at hstands
          rwa [hsplit, add_nsmul, one_nsmul]
        · obtain ⟨s, hs, hstands⟩ := ih hhalf hr hp'
          refine ⟨s, by rw [if_neg hodd, hdouble]; exact hs, ?_⟩
          have hsplit : k = 2 * (k / 2) := by omega
          rw [hy] at hstands
          rwa [← hsplit] at hstands

/-- With a step for each bit, starting from what stands for nothing. -/
theorem doubleAndAdd_size (hop : Adds Stands op) {r p : α} {y : M} (hr : Stands r 0)
    (hp : Stands p y) (k : Nat) :
    ∃ s, doubleAndAdd op k.size k r p = some s ∧ Stands s (k • y) := by
  obtain ⟨s, hs, hstands⟩ := doubleAndAdd_stands hop (Nat.lt_size_self k) hr hp
  exact ⟨s, hs, by rwa [zero_add] at hstands⟩

end Doubling

end RlnGifter
