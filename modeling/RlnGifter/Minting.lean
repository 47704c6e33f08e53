/-
The attestations that `mint_attest.py` mints, and that the verifier of the cards takes
them as it takes those of genuine cards: just where the key that certified them is
trusted.
-/
import RlnGifter.Ecdsa
import RlnGifter.Keccak
import RlnGifter.Mint
import RlnGifter.Secp256k1
import RlnGifter.Vectors

namespace RlnGifter

namespace Mint

open KeycardAttest

/-- `v.to_bytes(n, "big")`, which raises `OverflowError` where the number does not fit. -/
def toBytesChecked (v : Int) (n : Nat) : Option (List UInt8) :=
  if 0 ≤ v ∧ v < 2 ^ (8 * n) then some (toBytes v.toNat n) else none

/-- `int.from_bytes(bytes, "big")`. -/
def fromBytes (bytes : List UInt8) : Nat :=
  bytes.foldl (fun n b => 256 * n + b.toNat) 0

/-- `compressed_pub`.  There are no coordinates to unpack at infinity. -/
def compressedPub (priv : Nat) : Option (List UInt8) :=
  match pubPoint priv with
  | some (some (x, y)) => do
      let xBytes ← toBytesChecked x 32
      return .ofNat (2 + (y % 2).toNat) :: xBytes
  | _ => none

/-- `uncompressed_pub`. -/
def uncompressedPub (priv : Nat) : Option (List UInt8) :=
  match pubPoint priv with
  | some (some (x, y)) => do return 0x04 :: (← toBytesChecked x 32) ++ (← toBytesChecked y 32)
  | _ => none

/-- What a turn of the loop of `sign_prehash` comes to, if it does not raise. -/
inductive Turn where
  | again
  | signed (r s recid : Nat)

/-- The turn once the nonce is chosen. -/
def signWith (priv z k : Nat) : Option Turn :=
  if k = 0 then some .again
  else
    match mul k (some (GX, GY)) with
    | some (some (rx, ry)) =>
        if N ≤ rx then some .again
        else
          let r := rx % N
          if r = 0 then some .again
          else do
            let s := (← inv k N) * (z + r * priv) % N
            if s = 0 then return .again
            else
              let recid := (ry % 2).toNat
              if N / 2 < s then return .signed r.toNat (N - s).toNat (recid ^^^ 1)
              else return .signed r.toNat s.toNat recid
    | _ => none

section Tool

variable [Crypto]

/-- The nonce of a turn. -/
def nonce (priv : Nat) (prehash : List UInt8) (ctr : Nat) : Option Nat := do
  let secret ← toBytesChecked priv 32
  let count ← toBytesChecked ctr 4
  return fromBytes (Crypto.sha256 (secret ++ prehash ++ count)).toList % N

/-- The turns of the loop from `ctr` on. -/
def signFrom (priv : Nat) (prehash : List UInt8) : Nat → Nat → Option (Nat × Nat × Nat)
  | 0, _ => none
  | turns + 1, ctr => do
      let k ← nonce priv prehash ctr
      match ← signWith priv (fromBytes prehash) k with
      | .again => signFrom priv prehash turns (ctr + 1)
      | .signed r s recid => return (r, s, recid)

/-- `sign_prehash`.  The counter of the turn after `2 ^ 32` others does not fit its bytes. -/
def signPrehash (priv : Nat) (prehash : List UInt8) : Option (Nat × Nat × Nat) :=
  signFrom priv prehash (2 ^ 32 + 1) 0

/-- `DOMAIN`. -/
def domain : List UInt8 := utf8 "logos/rln/keycard-attest/1"

/-- `bound_challenge`. -/
def boundChallenge (idCommitment : List UInt8) : Bytes 32 :=
  Crypto.sha256 (domain ++ idCommitment)

/-- What `mint` returns. -/
structure Minted where
  tlv : String
  challenge : String
  caPub : String
  identPub : String
  nullifier : String

def mint (caPriv cardPriv : Nat) (idCommitment : List UInt8) : Option Minted := do
  let identPub ← compressedPub cardPriv
  let prehash := (Crypto.sha256 identPub).toList
  let (r, s, recid) ← signPrehash caPriv prehash
  let cert := identPub ++ (← toBytesChecked r 32) ++ (← toBytesChecked s 32) ++ [.ofNat recid]
  let challenge := (boundChallenge idCommitment).toList
  let (cr, cs, _) ← signPrehash cardPriv challenge
  let template := (← tlv 0x8A cert) ++ (← derEncode cr cs)
  return {
    tlv := hexEncode (← tlv 0xA0 template)
    challenge := hexEncode challenge
    caPub := hexEncode (← compressedPub caPriv)
    identPub := hexEncode identPub
    nullifier := hexEncode (keccak256 identPub) }

end Tool

section Numbers

theorem toBytesChecked_of_lt {v n : Nat} (h : v < 2 ^ (8 * n)) :
    toBytesChecked v n = some (toBytes v n) :=
  if_pos ⟨Int.natCast_nonneg v, by exact_mod_cast h⟩

theorem foldl_bytes (bytes : List UInt8) (v : Nat) :
    bytes.foldl (fun n b => 256 * n + b.toNat) v = v * 256 ^ bytes.length + fromBytes bytes := by
  induction bytes generalizing v with
  | nil => simp [fromBytes]
  | cons b bytes ih =>
      rw [fromBytes, List.foldl_cons, List.foldl_cons, ih, ih (256 * 0 + b.toNat),
        List.length_cons, Nat.pow_succ]
      ring

theorem fromBytes_cons (b : UInt8) (bytes : List UInt8) :
    fromBytes (b :: bytes) = b.toNat * 256 ^ bytes.length + fromBytes bytes := by
  rw [fromBytes, List.foldl_cons, foldl_bytes]
  simp

/-- Reading the bytes of a number gives its lowest bytes back. -/
theorem fromBytes_toBytes_mod (v n : Nat) : fromBytes (toBytes v n) = v % 256 ^ n := by
  induction n with
  | zero => simp [toBytes, fromBytes, Nat.mod_one]
  | succ n ih =>
      have hpow : (2 : Nat) ^ (8 * n) = 256 ^ n := by rw [Nat.pow_mul]
      have hbyte : (UInt8.ofNat (v >>> (8 * n))).toNat = v / 256 ^ n % 256 := by
        rw [UInt8.toNat_ofNat', Nat.shiftRight_eq_div_pow, hpow]
      have hsplit : v % (256 ^ n * 256) = v % 256 ^ n + 256 ^ n * (v / 256 ^ n % 256) :=
        Nat.mod_mul
      rw [toBytes, fromBytes_cons, length_toBytes, ih, hbyte, Nat.pow_succ, hsplit,
        Nat.add_comm, Nat.mul_comm (256 ^ n)]

theorem fromBytes_toBytes {v n : Nat} (h : v < 256 ^ n) : fromBytes (toBytes v n) = v := by
  rw [fromBytes_toBytes_mod, Nat.mod_eq_of_lt h]

end Numbers

section Keys

open ShortCurve

theorem P_lt : P < 2 ^ 256 := by decide +kernel

theorem N_lt : N < 2 ^ 256 := by decide +kernel

theorem val_lt (x : ZMod P) : x.val < 2 ^ 256 := x.val_lt.trans P_lt

/-- The compressed SEC1 form of a point. -/
def sec1 (Q : Point) : List UInt8 :=
  match coords Q with
  | none => [0x00]
  | some (x, y) => .ofNat (2 + y.val % 2) :: toBytes x.val 32

theorem sec1_some {Q : Point} {x y : ZMod P} (h : coords Q = some (x, y)) :
    sec1 Q = .ofNat (2 + y.val % 2) :: toBytes x.val 32 := by rw [sec1, h]

/-- Opposite residues have different parities. -/
theorem parity_neg {y : ZMod P} (hy : y ≠ 0) : (-y).val % 2 = 1 - y.val % 2 := by
  have hlt := y.val_lt
  have hpos : y.val ≠ 0 := fun h => hy ((ZMod.val_eq_zero y).mp h)
  have hodd : P % 2 = 1 := by decide +kernel
  have : NeZero y := ⟨hy⟩
  rw [ZMod.val_neg_of_ne_zero]
  omega

/-- A first coordinate and a parity are those of one point. -/
theorem coords_parity {Q R : Point} {x y y' : ZMod P} (hQ : coords Q = some (x, y))
    (hR : coords R = some (x, y')) (h : y.val % 2 = y'.val % 2) : Q = R := by
  rcases eq_or_eq_neg hQ hR with heq | hneg
  · exact heq
  · rw [hneg, coords_neg, hR] at hQ
    obtain rfl := (Prod.mk.inj (Option.some.inj hQ)).2
    by_cases hzero : y' = 0
    · rw [hneg]
      exact coords_injective (by rw [coords_neg, hR, hzero]; simp)
    · rw [parity_neg hzero] at h
      omega

theorem sec1_injective : Function.Injective sec1 := by
  intro Q R h
  cases hQ : coords Q with
  | none =>
      cases hR : coords R with
      | none => rw [coords_eq_none.mp hQ, coords_eq_none.mp hR]
      | some q =>
          rw [sec1, hQ, sec1_some hR] at h
          exact absurd (congrArg List.length h) (by simp)
  | some p =>
      cases hR : coords R with
      | none =>
          rw [sec1_some hQ, sec1, hR] at h
          exact absurd (congrArg List.length h) (by simp)
      | some q =>
          rw [sec1_some hQ, sec1_some hR] at h
          obtain ⟨htag, hbytes⟩ := List.cons.inj h
          have hx := congrArg fromBytes hbytes
          rw [fromBytes_toBytes (val_lt p.1), fromBytes_toBytes (val_lt q.1)] at hx
          have hparity := congrArg UInt8.toNat htag
          rw [UInt8.toNat_ofNat', UInt8.toNat_ofNat'] at hparity
          have hsame : q = (p.1, q.2) := Prod.ext (ZMod.val_injective P hx).symm rfl
          exact coords_parity hQ (hR.trans (congrArg some hsame)) (by omega)

theorem length_sec1 {Q : Point} (h : Q ≠ 0) : (sec1 Q).length = 33 := by
  cases hQ : coords Q with
  | none => exact absurd (coords_eq_none.mp hQ) h
  | some p => rw [sec1_some hQ, List.length_cons, length_toBytes]

/-- The key of a secret that is no multiple of the order is the encoding of its point. -/
theorem compressedPub_eq (priv : Nat) :
    compressedPub priv = if N ∣ priv then none else some (sec1 (priv • base)) := by
  rw [compressedPub, pubPoint_eq]
  by_cases hzero : N ∣ priv
  · rw [if_pos hzero, (nsmul_base_eq_zero priv).mpr hzero]
    rfl
  · rw [if_neg hzero]
    cases hQ : coords (priv • base) with
    | none => exact absurd ((nsmul_base_eq_zero priv).mp (coords_eq_none.mp hQ)) hzero
    | some p =>
        rw [pair_some hQ, sec1_some hQ]
        simp only [toBytesChecked_of_lt (n := 32) (val_lt p.1)]
        have hmod : ((p.2.val : Int) % 2).toNat = p.2.val % 2 := by omega
        rw [hmod]
        rfl

theorem nsmul_base_eq (a b : Nat) : a • base = b • base ↔ a % N = b % N := by
  have horder : addOrderOf base = N := addOrderOf_eq_prime order_base base_ne_zero
  rw [nsmul_eq_nsmul_iff_modEq, horder]
  rfl

/-- The tool's keys are the points of secp256k1.  Its loop multiplies points; a secret
has a key unless it is a multiple of the order, and secrets have the same key just if they
are the same up to the order. -/
theorem compressedPub_points :
    (∀ (k : Nat) (Q : Point), mul k (pair Q) = some (pair (k • Q))) ∧
    (∀ priv, compressedPub priv = none ↔ N ∣ priv) ∧
    (∀ priv key, compressedPub priv = some key → key.length = 33) ∧
    ∀ a b, ¬N ∣ a → (compressedPub a = compressedPub b ↔ a % N = b % N) := by
  refine ⟨mul_pair, ?_, ?_, ?_⟩
  · intro priv
    rw [compressedPub_eq]
    split <;> simp [*]
  · intro priv key h
    rw [compressedPub_eq] at h
    split at h
    · cases h
    · rename_i hdvd
      cases h
      exact length_sec1 (mt (nsmul_base_eq_zero priv).mp hdvd)
  · intro a b ha
    rw [compressedPub_eq, compressedPub_eq, if_neg ha]
    by_cases hb : N ∣ b
    · have hne : a % N ≠ b % N := by
        rw [Nat.mod_eq_zero_of_dvd hb]
        exact fun h => ha (Nat.dvd_of_mod_eq_zero h)
      simp [hb, hne]
    · rw [if_neg hb, Option.some.injEq, sec1_injective.eq_iff, nsmul_base_eq]

end Keys

section Signing

open ShortCurve

/-- The first coordinate, as a scalar. -/
def xScalar (Q : Point) : ZMod N :=
  match coords Q with
  | none => 0
  | some (x, _) => x.val

theorem xScalar_some {Q : Point} {x y : ZMod P} (h : coords Q = some (x, y)) :
    xScalar Q = x.val := by rw [xScalar, h]

/-- ECDSA on secp256k1. -/
noncomputable def scheme : Ecdsa.Scheme Point N where
  generator := base
  order := order_base
  scalar := xScalar
  scalar_neg Q := by
    cases hQ : coords Q with
    | none => rw [coords_eq_none.mp hQ, neg_zero]
    | some p =>
        have hneg : coords (-Q) = some (p.1, -p.2) := by rw [coords_neg, hQ]; rfl
        rw [xScalar_some hQ, xScalar_some hneg]

theorem scale_cast {Q : Point} (hQ : N • Q = 0) (k : Nat) :
    Ecdsa.scale (k : ZMod N) Q = k • Q := by
  rw [Ecdsa.scale, ZMod.val_natCast, ← nsmul_eq_mod_nsmul k hQ]

theorem key_cast (k : Nat) : scheme.key (k : ZMod N) = k • base := scale_cast order_base k

/-- No point of the order has a second coordinate of zero. -/
theorem snd_ne_zero {Q : Point} {x y : ZMod P} (hQ : coords Q = some (x, y))
    (horder : N • Q = 0) : y ≠ 0 := by
  rintro rfl
  have hdouble : 2 • Q = 0 := by
    rw [two_nsmul, ← coords_eq_none]
    exact coords_add_opposite hQ (by rw [hQ, neg_zero])
  have hodd : N = N / 2 * 2 + 1 := by decide +kernel
  rw [hodd, add_nsmul, mul_nsmul', hdouble, nsmul_zero, zero_add, one_nsmul] at horder
  rw [horder] at hQ
  cases hQ

/-- A nonce that `sign_prehash` signs with. -/
structure Usable (priv z k : Nat) (x y : ZMod P) : Prop where
  point : coords (k • base) = some (x, y)
  small : x.val < N
  nonzero : x.val ≠ 0
  signs : (z : ZMod N) + x.val * priv ≠ 0

/-- What a signature of `z` under `priv` is to its verifiers: it has a low `s`, it
verifies, and it names the point that recovers the key. -/
structure Signed (priv z r s recid : Nat) : Prop where
  rPos : 0 < r
  rLt : r < N
  sPos : 0 < s
  sLow : s ≤ N / 2
  verifies : scheme.Verifies (priv • base) z r s
  recovers : ∃ R x y, coords R = some (x, y) ∧ x.val = r ∧ y.val % 2 = recid ∧
    scheme.recovered R z r s = priv • base

theorem cast_ne_zero {v : Nat} (hpos : v ≠ 0) (hlt : v < N) : (v : ZMod N) ≠ 0 := by
  rw [Ne, ZMod.natCast_eq_zero_iff]
  exact fun h => absurd (Nat.le_of_dvd (Nat.pos_of_ne_zero hpos) h) (Nat.not_le.mpr hlt)

/-- The low one of a signature and its mirror image is a signature for the verifiers. -/
theorem signed_of_signs {priv z k : Nat} {x y : ZMod P} {s : ZMod N}
    (hcoords : coords (k • base) = some (x, y)) (hx : x.val < N)
    (h : scheme.Signs priv z k x.val s) :
    if N / 2 < s.val then Signed priv z x.val (N - s.val) ((y.val % 2) ^^^ 1)
    else Signed priv z x.val s.val (y.val % 2) := by
  have hxpos : 0 < x.val := by
    refine Nat.pos_of_ne_zero fun hzero => h.rNonzero ?_
    rw [hzero, Nat.cast_zero]
  have hspos : 0 < s.val := Nat.pos_of_ne_zero (mt (ZMod.val_eq_zero s).mp h.sNonzero)
  have hverifies := h.verifies
  have hrecovered := h.recovered
  rw [key_cast] at hverifies hrecovered
  rw [key_cast] at hrecovered
  have horder : ∀ j : Nat, N • (j • base) = 0 := by
    intro j
    rw [← key_cast]
    exact scheme.key_order j
  split
  · rename_i hhigh
    have hneg : ((N - s.val : Nat) : ZMod N) = -s := by
      rw [Nat.cast_sub s.val_lt.le, ZMod.natCast_self, ZMod.natCast_zmod_val, zero_sub]
    have hlow : N - s.val ≤ N / 2 := by
      have hodd : N = 2 * (N / 2) + 1 := by decide +kernel
      omega
    have hy := snd_ne_zero hcoords (horder k)
    refine ⟨hxpos, hx, Nat.sub_pos_of_lt s.val_lt, hlow, ?_, -(k • base), x, -y, ?_, rfl, ?_, ?_⟩
    · rw [hneg]
      exact hverifies.neg (horder priv)
    · rw [coords_neg, hcoords]
      rfl
    · have hflip : ∀ b < 2, 1 - b = b ^^^ 1 := by decide
      rw [parity_neg hy]
      exact hflip _ (Nat.mod_lt _ (by decide))
    · rw [hneg, Ecdsa.Scheme.recovered_neg (horder k), hrecovered]
  · rename_i hlow
    have hcast : ((s.val : Nat) : ZMod N) = s := ZMod.natCast_zmod_val s
    refine ⟨hxpos, hx, hspos, Nat.le_of_not_lt hlow, ?_, k • base, x, y, hcoords, rfl, rfl, ?_⟩
    · rwa [hcast]
    · rwa [hcast]

/-- A turn does not raise: it signs if the nonce is usable, and goes on if not. -/
theorem signWith_cases (priv z : Nat) {k : Nat} (hk : k < N) :
    (signWith priv z k = some .again ∧ ∀ x y, ¬Usable priv z k x y) ∨
    ∃ x y r s recid, signWith priv z k = some (.signed r s recid) ∧ Usable priv z k x y ∧
      Signed priv z r s recid := by
  rw [signWith]
  by_cases hzero : k = 0
  · refine .inl ⟨if_pos hzero, fun x y h => ?_⟩
    have hpoint := h.point
    rw [hzero, zero_nsmul] at hpoint
    cases hpoint
  · cases hcoords : coords (k • base) with
    | none =>
        rw [coords_eq_none, nsmul_base_eq_zero] at hcoords
        exact absurd (Nat.le_of_dvd (Nat.pos_of_ne_zero hzero) hcoords) (Nat.not_le.mpr hk)
    | some p =>
        obtain ⟨x, y⟩ := p
        have hsame : ∀ {x' y' : ZMod P}, coords (k • base) = some (x', y') → x' = x := by
          intro x' y' h
          exact (Prod.mk.inj (Option.some.inj (h.symm.trans hcoords))).1
        rw [if_neg hzero, ← pair_base, mul_pair, pair_some hcoords]
        by_cases hbig : N ≤ x.val
        · refine .inl ⟨if_pos (by exact_mod_cast hbig), fun x' y' h => ?_⟩
          exact absurd (hsame h.point ▸ h.small) (Nat.not_lt.mpr hbig)
        · have hx : x.val < N := Nat.lt_of_not_le hbig
          have hr : ((x.val : Int) % (N : Int)) = (x.val : Int) :=
            Int.emod_eq_of_lt (Int.natCast_nonneg _) (by exact_mod_cast hx)
          simp only [hr]
          rw [if_neg (by exact_mod_cast hbig)]
          by_cases hxzero : x.val = 0
          · refine .inl ⟨if_pos (by exact_mod_cast hxzero), fun x' y' h => ?_⟩
            exact h.nonzero (hsame h.point ▸ hxzero)
          · rw [if_neg (by exact_mod_cast hxzero)]
            obtain ⟨i, hi, hone⟩ := inv_eq (m := N) (a := (k : Int))
              (by rw [Int.cast_natCast]; exact cast_ne_zero hzero hk)
            let σ : ZMod N := i * (z + x.val * priv)
            have hs : i * ((z : Int) + (x.val : Int) * priv) % (N : Int) = (σ.val : Int) := by
              rw [emod_eq_val]
              push_cast
              rfl
            rw [hi]
            simp only [Option.bind_eq_bind, Option.bind_some, hs]
            by_cases hszero : σ = 0
            · refine .inl ⟨if_pos (by rw [hszero, ZMod.val_zero]; rfl), fun x' y' h => ?_⟩
              obtain rfl := hsame h.point
              have hunit : (i : ZMod N) ≠ 0 := by
                rintro hnone
                rw [hnone, zero_mul] at hone
                exact zero_ne_one hone
              exact (mul_ne_zero hunit h.signs) hszero
            · have hspos : σ.val ≠ 0 := mt (ZMod.val_eq_zero σ).mp hszero
              have hsigns : scheme.Signs priv z k x.val σ := by
                refine ⟨?_, ?_, cast_ne_zero hxzero hx, hszero⟩
                · rw [key_cast]
                  exact xScalar_some hcoords
                · rw [Int.cast_natCast] at hone
                  simp only [σ]
                  linear_combination (z + x.val * priv : ZMod N) * hone
              have husable : Usable priv z k x y := by
                refine ⟨hcoords, hx, hxzero, fun hzero => hszero ?_⟩
                simp only [σ]
                rw [hzero, mul_zero]
              have hsigned := signed_of_signs hcoords hx hsigns
              have hbit : ((y.val : Int) % 2).toNat = y.val % 2 := by omega
              rw [if_neg (by exact_mod_cast hspos), hbit]
              by_cases hhigh : N / 2 < σ.val
              · have hcast : ((N : Int) - σ.val).toNat = N - σ.val := by omega
                rw [if_pos hhigh] at hsigned
                refine .inr ⟨x, y, _, _, _, ?_, husable, hsigned⟩
                rw [if_pos (by exact_mod_cast hhigh), hcast, Int.toNat_natCast]
                rfl
              · rw [if_neg hhigh] at hsigned
                refine .inr ⟨x, y, _, _, _, ?_, husable, hsigned⟩
                rw [if_neg (by exact_mod_cast hhigh), Int.toNat_natCast, Int.toNat_natCast]
                rfl

variable [Crypto]

/-- The nonces of the turns, as far as the secret and the counter fit their bytes. -/
theorem nonce_eq (priv : Nat) (prehash : List UInt8) (ctr : Nat) :
    nonce priv prehash ctr = if priv < 2 ^ 256 ∧ ctr < 2 ^ 32 then
      some (fromBytes (Crypto.sha256 (toBytes priv 32 ++ prehash ++ toBytes ctr 4)).toList % N)
    else none := by
  have hfits : ∀ (v n : Nat), toBytesChecked v n =
      if v < 2 ^ (8 * n) then some (toBytes v n) else none := by
    intro v n
    by_cases h : v < 2 ^ (8 * n)
    · rw [if_pos h, toBytesChecked_of_lt h]
    · rw [if_neg h, toBytesChecked, if_neg fun hc => h (by exact_mod_cast hc.2)]
  rw [nonce, hfits, hfits]
  by_cases hpriv : priv < 2 ^ 256
  · by_cases hctr : ctr < 2 ^ 32
    · rw [if_pos hpriv, if_pos hctr, if_pos ⟨hpriv, hctr⟩]
      rfl
    · have hnot : ¬(priv < 2 ^ 256 ∧ ctr < 2 ^ 32) := fun h => hctr h.2
      rw [if_pos hpriv, if_neg hctr, if_neg hnot]
      rfl
  · have hnot : ¬(priv < 2 ^ 256 ∧ ctr < 2 ^ 32) := fun h => hpriv h.1
    rw [if_neg hpriv, if_neg hnot]
    rfl

/-- The nonce of turn `ctr` is one to sign with. -/
def UsableAt (priv : Nat) (prehash : List UInt8) (ctr : Nat) : Prop :=
  ∃ k x y, nonce priv prehash ctr = some k ∧ Usable priv (fromBytes prehash) k x y

/-- What the loop comes to from the turn `ctr` on. -/
theorem signFrom_cases (priv : Nat) (prehash : List UInt8) (turns ctr : Nat)
    (hturns : turns + ctr = 2 ^ 32 + 1) :
    (signFrom priv prehash turns ctr = none ∧ ∀ c, ctr ≤ c → ¬UsableAt priv prehash c) ∨
    ∃ r s recid c, signFrom priv prehash turns ctr = some (r, s, recid) ∧
      UsableAt priv prehash c ∧ Signed priv (fromBytes prehash) r s recid := by
  have hlast : ∀ c, 2 ^ 32 ≤ c → ¬UsableAt priv prehash c := by
    rintro c hc ⟨k, x, y, hk, -⟩
    rw [nonce_eq, if_neg fun h => absurd h.2 (Nat.not_lt.mpr hc)] at hk
    cases hk
  induction turns generalizing ctr with
  | zero => exact .inl ⟨rfl, fun c hc => hlast c (by omega)⟩
  | succ turns ih =>
      rw [signFrom]
      cases hk : nonce priv prehash ctr with
      | none =>
          refine .inl ⟨rfl, fun c hc => ?_⟩
          rintro ⟨k, x, y, hused, -⟩
          rw [nonce_eq] at hk hused
          split at hk
          · cases hk
          · rename_i hfits
            split at hused
            · rename_i hused'
              exact hfits ⟨hused'.1, by omega⟩
            · cases hused
      | some k =>
          have hlt : k < N := by
            rw [nonce_eq] at hk
            split at hk
            · cases hk
              exact Nat.mod_lt _ N_prime.pos
            · cases hk
          simp only [Option.bind_eq_bind, Option.bind_some]
          rcases signWith_cases priv (fromBytes prehash) hlt with
            ⟨hagain, hnone⟩ | ⟨x, y, r, s, recid, hsigned, husable, hsig⟩
          · rw [hagain]
            rcases ih (ctr + 1) (by omega) with ⟨hfrom, hrest⟩ | hfound
            · refine .inl ⟨hfrom, fun c hc => ?_⟩
              rcases Nat.eq_or_lt_of_le hc with rfl | hlater
              · rintro ⟨k', x, y, hk', hused⟩
                obtain rfl := Option.some.inj (hk.symm.trans hk')
                exact hnone x y hused
              · exact hrest c hlater
            · exact .inr hfound
          · rw [hsigned]
            exact .inr ⟨r, s, recid, ctr, rfl, ⟨k, x, y, hk, husable⟩, hsig⟩

theorem signPrehash_cases (priv : Nat) (prehash : List UInt8) :
    (signPrehash priv prehash = none ∧ ∀ c, ¬UsableAt priv prehash c) ∨
    ∃ r s recid c, signPrehash priv prehash = some (r, s, recid) ∧
      UsableAt priv prehash c ∧ Signed priv (fromBytes prehash) r s recid := by
  rcases signFrom_cases priv prehash (2 ^ 32 + 1) 0 rfl with h | h
  · exact .inl ⟨h.1, fun c => h.2 c (Nat.zero_le c)⟩
  · exact .inr h

theorem signed_of_signPrehash {priv r s recid : Nat} {prehash : List UInt8}
    (h : signPrehash priv prehash = some (r, s, recid)) :
    Signed priv (fromBytes prehash) r s recid := by
  rcases signPrehash_cases priv prehash with ⟨hnone, -⟩ | ⟨r', s', recid', c, hsome, -, hsigned⟩
  · cases hnone.symm.trans h
  · cases hsome.symm.trans h
    exact hsigned

/-- The tool's signatures are sound and there whenever they can be.  Signing comes to an
end for every secret and every digest, and fails just if no counter gives a nonce to sign
with; what it returns has a low `s`, verifies under the key of the secret, and recovers
this key. -/
theorem signPrehash_signs (priv : Nat) (prehash : List UInt8) :
    (signPrehash priv prehash = none ↔ ∀ ctr, ¬UsableAt priv prehash ctr) ∧
    ∀ r s recid, signPrehash priv prehash = some (r, s, recid) →
      Signed priv (fromBytes prehash) r s recid := by
  refine ⟨?_, fun r s recid h => signed_of_signPrehash h⟩
  rcases signPrehash_cases priv prehash with ⟨hnone, hall⟩ | ⟨r, s, recid, c, hsome, hused, -⟩
  · exact ⟨fun _ => hall, fun _ => hnone⟩
  · constructor
    · intro h
      cases h.symm.trans hsome
    · exact fun h => absurd hused (h c)

end Signing

end Mint

end RlnGifter
