/-
The curve arithmetic of `mint_attest.py`, on pairs of integers, and that it is the group
of secp256k1: the sums it computes and the multiples its loop computes are those of the
points, and the base point has the prime order that the tool names.
-/
import Mathlib.Data.Int.GCD
import Mathlib.Tactic.NormNum.Prime
import RlnGifter.Primality
import RlnGifter.ShortCurve

namespace RlnGifter

namespace Mint

/-- `_P`. -/
def P : Nat := 0xFFFFFFFFFFFFFFFFFFFFFFFFFFFFFFFFFFFFFFFFFFFFFFFFFFFFFFFEFFFFFC2F

/-- `_N`. -/
def N : Nat := 0xFFFFFFFFFFFFFFFFFFFFFFFFFFFFFFFEBAAEDCE6AF48A03BBFD25E8CD0364141

/-- `_GX`. -/
def GX : Int := 0x79BE667EF9DCBBAC55A06295CE870B07029BFCDB2DCE28D959F2815B16F81798

/-- `_GY`. -/
def GY : Int := 0x483ADA7726A3C4655DA4FBFC0E1108A8FD17B448A68554199C47D08FFB10D4B8

/-- `_inv`, which is `pow(a, -1, m)` and raises `ValueError` where there is no inverse. -/
def inv (a : Int) (m : Nat) : Option Int :=
  if Int.gcd a m = 1 then some (Int.gcdA a m % m) else none

/-- A pair of coordinates, or `None`. -/
abbrev Coords : Type := Option (Int × Int)

/-- `lam` in `_add`. -/
def slope (p q : Int × Int) : Option Int :=
  if p = q then (inv (2 * p.2) P).map fun i => 3 * p.1 * p.1 * i % P
  else (inv (q.1 - p.1) P).map fun i => (q.2 - p.2) * i % P

/-- `_add`. -/
def add : Coords → Coords → Option Coords
  | none, q => some q
  | some p, none => some (some p)
  | some p, some q =>
      if p.1 = q.1 ∧ (p.2 + q.2) % P = 0 then some none
      else do
        let lam ← slope p q
        let x := (lam * lam - p.1 - q.1) % P
        return some (x, (lam * (p.1 - x) - p.2) % P)

/-- `_mul`. -/
def mul (k : Nat) (p : Coords) : Option Coords :=
  doubleAndAdd add k.size k none p

/-- `_pub_point`. -/
def pubPoint (priv : Nat) : Option Coords :=
  mul priv (some (GX, GY))

section Primes

/-- The factors that trial division settles. -/
def smallPrimes : List Nat :=
  [2, 3, 5, 7, 11, 13, 17, 19, 29, 31, 41, 53, 59, 97, 109, 149, 293, 461, 631, 797, 971,
    1373, 1627, 1871, 2011, 2621, 2657, 4051, 4423, 5323, 7723, 9349, 13441, 16699, 20113,
    24809, 28181, 41201, 85831, 96557, 120233, 305873]

theorem smallPrimes_prime : ∀ q ∈ smallPrimes, q.Prime := by
  simp only [smallPrimes, List.forall_mem_cons]
  norm_num

/-- The chain that ends in both moduli. -/
def certificate : List Primality.Step := [
  ⟨1206781, 10, [2, 2, 3, 5, 20113]⟩,
  ⟨7240687, 3, [2, 3, 1206781]⟩,
  ⟨107590001, 3, [2, 2, 2, 2, 5, 5, 5, 5, 7, 29, 53]⟩,
  ⟨255515944373312847190720520512484175977, 3,
    [2, 2, 2, 7, 7, 11, 1627, 2657, 4423, 41201, 96557, 7240687, 107590001]⟩,
  ⟨13331831, 13, [2, 5, 971, 1373]⟩,
  ⟨173378833005251801, 6, [2, 2, 2, 5, 5, 2621, 24809, 13331831]⟩,
  ⟨22149492674086928081353, 5, [2, 2, 2, 3, 5323, 173378833005251801]⟩,
  ⟨132896956044521568488119, 6, [2, 3, 22149492674086928081353]⟩,
  ⟨205115282021455665897114700593932402728804164701536103180137503955397371, 10,
    [2, 3, 5, 29, 29, 31, 7723, 132896956044521568488119,
      255515944373312847190720520512484175977]⟩,
  ⟨P, 3, [2, 3, 7, 13441,
    205115282021455665897114700593932402728804164701536103180137503955397371]⟩,
  ⟨44706919, 6, [2, 3, 797, 9349]⟩,
  ⟨174723607534414371449, 3, [2, 2, 2, 17, 59, 4051, 120233, 44706919]⟩,
  ⟨4681609, 23, [2, 2, 2, 3, 97, 2011]⟩,
  ⟨107361793816595537, 3, [2, 2, 2, 2, 16699, 85831, 4681609]⟩,
  ⟨1627771, 3, [2, 3, 5, 29, 1871]⟩,
  ⟨297159362677, 2, [2, 2, 3, 3, 11, 461, 1627771]⟩,
  ⟨545358713, 5, [2, 2, 2, 41, 59, 28181]⟩,
  ⟨29047611873442575647497758179, 2, [2, 293, 305873, 545358713, 297159362677]⟩,
  ⟨341948486974166000522343609283189, 2,
    [2, 2, 3, 3, 3, 109, 29047611873442575647497758179]⟩,
  ⟨N, 7, [2, 2, 2, 2, 2, 2, 3, 149, 631, 107361793816595537, 174723607534414371449,
    341948486974166000522343609283189]⟩]

set_option maxRecDepth 20000 in
theorem certificate_certifies : Primality.Certifies smallPrimes certificate := by
  decide +kernel

theorem P_prime : P.Prime :=
  certificate_certifies.prime smallPrimes_prime
    ⟨P, 3, [2, 3, 7, 13441,
      205115282021455665897114700593932402728804164701536103180137503955397371]⟩
    (by simp [certificate])

theorem N_prime : N.Prime :=
  certificate_certifies.prime smallPrimes_prime
    ⟨N, 7, [2, 2, 2, 2, 2, 2, 3, 149, 631, 107361793816595537, 174723607534414371449,
      341948486974166000522343609283189]⟩ (by simp [certificate])

instance : Fact P.Prime := ⟨P_prime⟩

instance : Fact N.Prime := ⟨N_prime⟩

end Primes

section Group

open ShortCurve

/-- The points of secp256k1. -/
abbrev Point : Type := ShortCurve.Point (0 : ZMod P) 7

/-- The pair the tool has for a point. -/
def pair (Q : Point) : Coords :=
  (coords Q).map fun c => (c.1.val, c.2.val)

theorem pair_some {Q : Point} {x y : ZMod P} (h : coords Q = some (x, y)) :
    pair Q = some ((x.val : Int), (y.val : Int)) := by rw [pair, h, Option.map_some]

/-- A remainder is the representative of its class. -/
theorem emod_eq_val {m : Nat} [NeZero m] (a : Int) : a % m = ((a : ZMod m).val : Int) :=
  (ZMod.val_intCast a).symm

@[simp] theorem cast_val {m : Nat} [NeZero m] (x : ZMod m) :
    (((x.val : Nat) : Int) : ZMod m) = x := by
  rw [Int.cast_natCast, ZMod.natCast_zmod_val]

theorem val_add_emod {x y : ZMod P} : ((x.val : Int) + y.val) % P = 0 ↔ x + y = 0 := by
  rw [emod_eq_val, Int.natCast_eq_zero, ZMod.val_eq_zero, Int.cast_add, cast_val, cast_val]

/-- A residue that is not zero has its inverse. -/
theorem inv_eq {m : Nat} [Fact m.Prime] {a : Int} (h : (a : ZMod m) ≠ 0) :
    ∃ i, inv a m = some i ∧ (i : ZMod m) * a = 1 := by
  have hprime : m.Prime := Fact.out
  have hgcd : Int.gcd a m = 1 := by
    rw [Int.gcd_comm, ← Int.isCoprime_iff_gcd_eq_one,
      Prime.coprime_iff_not_dvd (Nat.prime_iff_prime_int.mp hprime)]
    exact fun hdvd => h ((ZMod.intCast_zmod_eq_zero_iff_dvd a m).mpr hdvd)
  refine ⟨_, if_pos hgcd, ?_⟩
  have hbezout := congrArg (Int.cast (R := ZMod m)) (Int.gcd_eq_gcd_ab a m)
  rw [hgcd] at hbezout
  push_cast at hbezout
  rw [ZMod.intCast_mod, mul_comm]
  simpa using hbezout.symm

/-- The slope of the tangent. -/
theorem slope_self {x y : ZMod P} (hy : y + y ≠ 0) :
    ∃ lam, slope (x.val, y.val) (x.val, y.val) = some lam ∧
      (lam : ZMod P) * (2 * y) = 3 * x * x + 0 := by
  have hcast : ((2 * (y.val : Int) : Int) : ZMod P) = 2 * y := by
    rw [Int.cast_mul, cast_val, Int.cast_ofNat]
  obtain ⟨i, hi, hone⟩ := inv_eq (a := 2 * (y.val : Int)) (by rwa [hcast, two_mul])
  refine ⟨_, by rw [slope, if_pos rfl, hi]; rfl, ?_⟩
  rw [hcast] at hone
  simp only [ZMod.intCast_mod, Int.cast_mul, Int.cast_ofNat, cast_val]
  linear_combination (3 * x * x) * hone

/-- The slope of the chord. -/
theorem slope_ne {x₁ y₁ x₂ y₂ : ZMod P} (hx : x₁ ≠ x₂) :
    ∃ lam, slope (x₁.val, y₁.val) (x₂.val, y₂.val) = some lam ∧
      (lam : ZMod P) * (x₂ - x₁) = y₂ - y₁ := by
  have hcast : (((x₂.val : Int) - x₁.val : Int) : ZMod P) = x₂ - x₁ := by
    rw [Int.cast_sub, cast_val, cast_val]
  obtain ⟨i, hi, hone⟩ := inv_eq (a := (x₂.val : Int) - x₁.val)
    (by rw [hcast]; exact sub_ne_zero.mpr (Ne.symm hx))
  have hpair : ¬((x₁.val : Int), (y₁.val : Int)) = ((x₂.val : Int), (y₂.val : Int)) := by
    intro heq
    exact hx (ZMod.val_injective P (Int.natCast_inj.mp (Prod.mk.inj heq).1))
  refine ⟨_, by rw [slope, if_neg hpair, hi]; rfl, ?_⟩
  rw [hcast] at hone
  simp only [ZMod.intCast_mod, Int.cast_mul, Int.cast_sub, cast_val]
  linear_combination (y₂ - y₁) * hone

/-- The sum by a line of the right slope is reduced as the tool reduces it. -/
theorem pair_line {S : Point} {x₁ y₁ x₂ : ZMod P} {lam : Int}
    (h : coords S = some ((lam : ZMod P) * lam - x₁ - x₂,
      lam * (x₁ - (lam * lam - x₁ - x₂)) - y₁)) :
    pair S = some ((lam * lam - x₁.val - x₂.val) % P,
      (lam * (x₁.val - (lam * lam - x₁.val - x₂.val) % P) - y₁.val) % P) := by
  rw [pair_some h]
  simp only [emod_eq_val, Int.cast_sub, Int.cast_mul, cast_val]

/-- `_add` adds points. -/
theorem add_pair (Q R : Point) : add (pair Q) (pair R) = some (pair (Q + R)) := by
  cases hQ : coords Q with
  | none =>
      rw [coords_eq_none] at hQ
      rw [hQ, zero_add]
      rfl
  | some p =>
      obtain ⟨x₁, y₁⟩ := p
      cases hR : coords R with
      | none =>
          rw [coords_eq_none] at hR
          rw [hR, add_zero, pair_some hQ]
          rfl
      | some q =>
          obtain ⟨x₂, y₂⟩ := q
          have hx : ((x₁.val : Int) = x₂.val) ↔ x₁ = x₂ := by
            rw [Int.natCast_inj, (ZMod.val_injective P).eq_iff]
          rw [pair_some hQ, pair_some hR, add]
          by_cases hopposite : x₁ = x₂ ∧ y₁ + y₂ = 0
          · obtain ⟨rfl, hy⟩ := hopposite
            rw [if_pos ⟨rfl, val_add_emod.mpr hy⟩, pair,
              coords_add_opposite hQ (by rw [hR, neg_eq_of_add_eq_zero_right hy])]
            rfl
          · rw [if_neg (by rwa [hx, val_add_emod])]
            by_cases hsame : x₁ = x₂
            · -- neither opposite points nor two points above one another are left
              subst hsame
              have hy : y₁ + y₂ ≠ 0 := fun hy => hopposite ⟨rfl, hy⟩
              rcases eq_or_eq_neg hQ hR with rfl | hneg
              · obtain rfl := (Prod.mk.inj (Option.some.inj (hQ.symm.trans hR))).2
                obtain ⟨lam, hlam, hline⟩ := slope_self hy
                rw [hlam, pair_line (coords_add_tangent hQ hy hline)]
                rfl
              · rw [hneg, coords_neg, hR] at hQ
                obtain rfl := (Prod.mk.inj (Option.some.inj hQ)).2
                exact absurd (neg_add_cancel y₂) hy
            · obtain ⟨lam, hlam, hline⟩ := slope_ne hsame
              rw [hlam, pair_line (coords_add_chord hQ hR hsame hline)]
              rfl

theorem pair_injective : Function.Injective pair := by
  intro Q R h
  have hval : Function.Injective fun c : ZMod P × ZMod P =>
      (((c.1.val : Int), (c.2.val : Int)) : Int × Int) := by
    intro c d hcd
    obtain ⟨hfst, hsnd⟩ := Prod.mk.inj hcd
    exact Prod.ext (ZMod.val_injective P (Int.natCast_inj.mp hfst))
      (ZMod.val_injective P (Int.natCast_inj.mp hsnd))
  exact coords_injective (Option.map_injective hval h)

/-- The pair is that of the point. -/
def IsPair (p : Coords) (Q : Point) : Prop := p = pair Q

theorem add_adds : Adds IsPair add := by
  rintro _ _ Q R rfl rfl
  exact ⟨_, add_pair Q R, rfl⟩

/-- `_mul` multiplies points. -/
theorem mul_pair (k : Nat) (Q : Point) : mul k (pair Q) = some (pair (k • Q)) := by
  have hzero : IsPair none 0 := rfl
  have hpair : IsPair (pair Q) Q := rfl
  obtain ⟨s, hs, rfl⟩ := doubleAndAdd_size add_adds hzero hpair k
  exact hs

theorem smooth : (curve (0 : ZMod P) 7).Δ ≠ 0 := by
  have hdisc : (curve (0 : ZMod P) 7).Δ = -((21168 : Nat) : ZMod P) := by
    simp only [curve, WeierstrassCurve.Δ, WeierstrassCurve.b₂, WeierstrassCurve.b₄,
      WeierstrassCurve.b₆, WeierstrassCurve.b₈]
    push_cast
    ring
  rw [hdisc, neg_ne_zero, Ne, ZMod.natCast_eq_zero_iff]
  exact fun h => absurd (Nat.le_of_dvd (by norm_num) h) (by norm_num [P])

/-- The base point is on the curve. -/
theorem exists_base : ∃ G : Point, coords G = some ((GX : ZMod P), (GY : ZMod P)) := by
  apply exists_coords smooth
  have h : GY ^ 2 % P = (GX ^ 3 + 7) % P := by decide +kernel
  have hcast := (ZMod.intCast_eq_intCast_iff' _ _ P).mpr h
  push_cast at hcast
  rw [hcast, zero_mul, add_zero]

/-- The base point. -/
noncomputable def base : Point := exists_base.choose

theorem pair_base : pair base = some (GX, GY) := by
  have hbase : coords base = some ((GX : ZMod P), (GY : ZMod P)) := exists_base.choose_spec
  rw [pair_some hbase, ← emod_eq_val, ← emod_eq_val]
  decide +kernel

set_option maxRecDepth 20000 in
theorem mul_N : mul N (some (GX, GY)) = some none := by decide +kernel

theorem order_base : N • base = 0 := by
  have h := mul_pair N base
  rw [pair_base, mul_N] at h
  exact pair_injective (Option.some.inj h).symm

theorem base_ne_zero : base ≠ 0 := by
  intro h
  have hpair := pair_base
  rw [h] at hpair
  cases hpair

/-- A multiple of the base point vanishes at the multiples of the order only. -/
theorem nsmul_base_eq_zero (k : Nat) : k • base = 0 ↔ N ∣ k := by
  rw [← addOrderOf_dvd_iff_nsmul_eq_zero, addOrderOf_eq_prime order_base base_ne_zero]

theorem pubPoint_eq (priv : Nat) : pubPoint priv = some (pair (priv • base)) := by
  rw [pubPoint, ← pair_base, mul_pair]

end Group

end Mint

end RlnGifter
