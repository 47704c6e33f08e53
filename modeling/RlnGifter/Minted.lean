/-
An attestation that `mint_attest.py` mints passes for one of a genuine card: the verifier
accepts it, for the commitment that it was minted for and with the nullifier that the
tool prints, just where the key that certified it is trusted.
-/
import RlnGifter.KeycardCapture
import RlnGifter.Minting

namespace RlnGifter

namespace Mint

open KeycardAttest

/-- `r` or `s` of a signature. -/
def IsScalar (v : Nat) : Prop := 0 < v ∧ v < N

/-- The content of a DER integer: big-endian, with a clear sign bit and as short as can
be. -/
structure DerInteger (v : Nat) (bytes : List UInt8) : Prop where
  value : fromBytes bytes = v
  clear : bytes.headD 0x80 < 0x80
  shortest : ∀ b rest, bytes = 0x00 :: b :: rest → 0x80 ≤ b

/-- What the crates say of ECDSA over secp256k1 and of Keccak-256: the encodings of
scalars, keys and signatures, and that a low signature is verified and recovered by the
equations of the scheme. -/
class K256 extends Crypto where
  signature : Nat → Nat → Signature
  verifyingKey : Point → VerifyingKey
  recoveryId : Nat → RecoveryId
  fromByte_eq : ∀ odd, odd < 2 → fromByte (.ofNat odd) = some (recoveryId odd)
  fromSlice_eq : ∀ r s, IsScalar r → IsScalar s →
    fromSlice (toBytes r 32 ++ toBytes s 32) = .ok (signature r s)
  fromDer_eq : ∀ r s a b, IsScalar r → IsScalar s → DerInteger r a → DerInteger s b →
    a.length + b.length + 4 < 0x80 → fromDer (0x30 :: .ofNat (a.length + b.length + 4) ::
      (0x02 :: .ofNat a.length :: a ++ 0x02 :: .ofNat b.length :: b)) = .ok (signature r s)
  normalizeS_eq : ∀ r s, IsScalar r → IsScalar s → s ≤ N / 2 →
    normalizeS (signature r s) = none
  fromSec1Bytes_eq : ∀ Q, Q ≠ 0 → fromSec1Bytes (sec1 Q) = .ok (verifyingKey Q)
  toEncodedPoint_eq : ∀ Q, Q ≠ 0 → toEncodedPoint (verifyingKey Q) true = sec1 Q
  verifyPrehash_eq : ∀ Q z r s, Q ≠ 0 → z.length = 32 → IsScalar r → IsScalar s →
    s ≤ N / 2 → scheme.Verifies Q (fromBytes z) r s →
    verifyPrehash (verifyingKey Q) z (signature r s) = true
  recoverFromPrehash_eq : ∀ R x y z s, ShortCurve.coords R = some (x, y) →
    z.length = 32 → IsScalar x.val → IsScalar s → s ≤ N / 2 →
    scheme.recovered R (fromBytes z) x.val s ≠ 0 →
    recoverFromPrehash z (signature x.val s) (recoveryId (y.val % 2)) =
      .ok (verifyingKey (scheme.recovered R (fromBytes z) x.val s))
  keccak256_eq : ∀ data, (keccak256 data).toList = Mint.keccak256 data

section Der

theorem and_high : ∀ b : UInt8, b &&& 0x80 = 0 ↔ b < 0x80 := by
  have hbytes : ∀ n < 256, n &&& 0x80 = 0 ↔ n < 0x80 := by decide +kernel
  intro b
  have h := hbytes b.toNat b.toNat_lt
  rw [UInt8.lt_iff_toNat_lt, ← UInt8.toNat_inj, UInt8.toNat_and]
  exact h

/-- The tool's integers are DER. -/
theorem intBytes_der {v : Nat} (h : 0 < v) : DerInteger v (intBytes v) := by
  have hsize : 0 < v.size := Nat.size_pos.mpr h
  have hn : (v.size + 7) / 8 ≠ 0 := by omega
  obtain ⟨n, hsucc⟩ : ∃ n, (v.size + 7) / 8 = n + 1 := Nat.exists_eq_succ_of_ne_zero hn
  have hpow : (2 : Nat) ^ (8 * n) = 256 ^ n := by rw [Nat.pow_mul]
  have hlow : 256 ^ n ≤ v := by
    rw [← hpow]
    exact Nat.lt_size.mp (by omega)
  have hhigh : v < 256 ^ (n + 1) := by
    rw [Nat.pow_succ, ← hpow]
    have hle : v < 2 ^ (8 * n + 8) := Nat.size_le.mp (by omega)
    rwa [Nat.pow_add] at hle
  have hhead : (UInt8.ofNat (v >>> (8 * n))).toNat = v / 256 ^ n := by
    rw [UInt8.toNat_ofNat', Nat.shiftRight_eq_div_pow, hpow]
    exact Nat.mod_eq_of_lt (Nat.div_lt_of_lt_mul (by rwa [Nat.pow_succ] at hhigh))
  have hvalue := fromBytes_toBytes hhigh
  have hpos : UInt8.ofNat (v >>> (8 * n)) ≠ 0 := by
    intro hzero
    rw [hzero] at hhead
    exact absurd hhead.symm (Nat.div_pos hlow (Nat.pow_pos (by decide))).ne'
  have hbytes : intBytes v = if UInt8.ofNat (v >>> (8 * n)) &&& 0x80 ≠ 0
      then 0x00 :: toBytes v (n + 1) else toBytes v (n + 1) := by
    rw [intBytes, hsucc]
    rfl
  rw [hbytes]
  split
  · rename_i hset
    refine ⟨?_, by simp, fun b rest heq => ?_⟩
    · rw [fromBytes_cons, hvalue]
      simp
    · rw [toBytes] at heq
      obtain ⟨rfl, -⟩ := List.cons.inj (List.cons.inj heq).2
      exact UInt8.not_lt.mp (mt (and_high _).mpr hset)
  · rename_i hclear
    refine ⟨hvalue, (and_high _).mp (not_not.mp hclear), fun b rest heq => ?_⟩
    rw [toBytes] at heq
    exact absurd (List.cons.inj heq).1 hpos

end Der

section Accepted

variable [Crypto]

/-- What the tool encodes is read up to the signature of the challenge. -/
theorem parseAttestation_tlv {identPub : Bytes 33} {caSig : Bytes 65}
    {body der cert bytes : List UInt8} (hder : tlv tagDerSequence body = some der)
    (hcert : tlv tagCertificate (identPub.toList ++ caSig.toList) = some cert)
    (hbytes : tlv tagSignatureTemplate (cert ++ der) = some bytes)
    {sig : Crypto.Signature} (hsig : Crypto.fromDer der = .ok sig) :
    parseAttestation bytes = .ok ⟨identPub, caSig, sig⟩ := by
  have hparts : tlvs [(tagCertificate, identPub.toList ++ caSig.toList),
      (tagDerSequence, body)] = some (cert ++ der) := by
    simp [tlvs, List.mapM_cons, hcert, hder]
  have hwhole : tlvs [(tagSignatureTemplate, cert ++ der)] = some bytes := by
    simp [tlvs, List.mapM_cons, hbytes]
  obtain ⟨enc, -, htemplate⟩ := findTagFrom_tlvs hwhole [] tagSignatureTemplate
  obtain ⟨enc', -, hfindCert⟩ := findTagFrom_tlvs hparts [] tagCertificate
  obtain ⟨der', hder', hfindDer⟩ := findTagFrom_tlvs hparts [] tagDerSequence
  obtain rfl := Option.some.inj (hder.symm.trans hder')
  have hparse := parseAttestation_eq htemplate hfindCert
    (splitCertificate_append identPub caSig) hfindDer
  rw [List.nil_append] at hparse
  rw [hparse, hsig]
  rfl

end Accepted

section Signatures

theorem Signed.scalars {priv z r s recid : Nat} (h : Signed priv z r s recid) :
    IsScalar r ∧ IsScalar s := by
  have hhalf : N / 2 < N := by decide +kernel
  exact ⟨⟨h.rPos, h.rLt⟩, h.sPos, h.sLow.trans_lt hhalf⟩

theorem IsScalar.lt {v : Nat} (h : IsScalar v) : v < 2 ^ (8 * 32) := h.2.trans N_lt

variable [K256]

/-- The tool's DER form of a signature is an entry that is read as the signature. -/
theorem fromDer_derEncode {r s : Nat} (hr : IsScalar r) (hs : IsScalar s) {der : List UInt8}
    (h : derEncode r s = some der) : (∃ body, tlv tagDerSequence body = some der) ∧
      Crypto.fromDer der = .ok (K256.signature r s) := by
  obtain ⟨body, der', hder, hbody, -⟩ := derEncode_of_lt hr.lt hs.lt
  obtain rfl := Option.some.inj (h.symm.trans hder)
  refine ⟨⟨body, hbody⟩, ?_⟩
  have hrLen := length_intBytes hr.lt
  have hsLen := length_intBytes hs.lt
  have hrEnc : encInt r = some (0x02 :: .ofNat (intBytes r).length :: intBytes r) :=
    if_pos (by omega)
  have hsEnc : encInt s = some (0x02 :: .ofNat (intBytes s).length :: intBytes s) :=
    if_pos (by omega)
  have hlen : (0x02 :: .ofNat (intBytes r).length :: intBytes r ++
      0x02 :: .ofNat (intBytes s).length :: intBytes s).length =
        (intBytes r).length + (intBytes s).length + 4 := by
    simp only [List.length_append, List.length_cons]
    omega
  rw [derEncode, hrEnc, hsEnc] at h
  simp only [Option.bind_eq_bind, Option.bind_some, hlen] at h
  rw [if_pos (by omega)] at h
  rw [← Option.some.inj h]
  exact K256.fromDer_eq r s _ _ hr hs (intBytes_der hr.1) (intBytes_der hs.1) (by omega)

theorem lowS_signature {r s : Nat} (hr : IsScalar r) (hs : IsScalar s) (hlow : s ≤ N / 2) :
    lowS (K256.signature r s) = K256.signature r s := by
  rw [lowS, K256.normalizeS_eq r s hr hs hlow]
  rfl

/-- The certificate recovers the key it was signed with. -/
theorem recoverCa_signed {caPriv r s recid : Nat} {identPub : Bytes 33} {caSig : Bytes 65}
    (sig : Crypto.Signature) (hca : caPriv • base ≠ 0)
    (h : Signed caPriv (fromBytes (Crypto.sha256 identPub.toList).toList) r s recid)
    (hcaSig : caSig.toList = toBytes r 32 ++ toBytes s 32 ++ [.ofNat recid]) :
    recoverCa ⟨identPub, caSig, sig⟩ = .ok (K256.verifyingKey (caPriv • base)) := by
  obtain ⟨hr, hs⟩ := h.scalars
  obtain ⟨R, x, y, hcoords, rfl, rfl, hrecovered⟩ := h.recovers
  have hlast : caSig.last = .ofNat (y.val % 2) := by
    rw [List.Vector.last_def, List.Vector.get_eq_get_toList]
    simp [hcaSig]
  have htake : caSig.toList.take 64 = toBytes x.val 32 ++ toBytes s 32 := by
    rw [hcaSig, List.take_left' (by simp)]
  have hkey := K256.recoverFromPrehash_eq R x y (Crypto.sha256 identPub.toList).toList s hcoords
    (List.Vector.toList_length _) hr hs h.sLow (by rwa [hrecovered])
  rw [hrecovered] at hkey
  simp only [recoverCa, hlast, htake, K256.fromByte_eq _ (Nat.mod_lt _ (by decide : 0 < 2)),
    K256.fromSlice_eq _ _ hr hs, bind, Except.bind, Except.mapError, hkey]

/-- An attestation of the two signatures verifies where the key of the certificate is
trusted. -/
theorem verifyAttestation_signed {caPriv cardPriv r s recid cr cs crecid : Nat}
    {identPub caPub : Bytes 33} {caSig : Bytes 65} {challenge : Bytes 32}
    (hca : caPriv • base ≠ 0) (hcard : cardPriv • base ≠ 0)
    (hcaPub : caPub.toList = sec1 (caPriv • base))
    (hidentPub : identPub.toList = sec1 (cardPriv • base))
    (hcert : Signed caPriv (fromBytes (Crypto.sha256 identPub.toList).toList) r s recid)
    (hcaSig : caSig.toList = toBytes r 32 ++ toBytes s 32 ++ [.ofNat recid])
    (hsigned : Signed cardPriv (fromBytes challenge.toList) cr cs crecid)
    (cas : List (Bytes 33)) :
    verifyAttestation ⟨identPub, caSig, K256.signature cr cs⟩ cas challenge =
      if caPub ∈ cas then .ok (nullifier identPub)
      else .error (.backend "attestation CA is not trusted") := by
  have hrecover := recoverCa_signed (K256.signature cr cs) hca hcert hcaSig
  have hpoint : Crypto.toEncodedPoint (K256.verifyingKey (caPriv • base)) true =
      caPub.toList := by
    rw [hcaPub]
    exact K256.toEncodedPoint_eq _ hca
  obtain ⟨hr, hs⟩ := hsigned.scalars
  have hident := K256.fromSec1Bytes_eq _ hcard
  have hverified := K256.verifyPrehash_eq _ _ _ _ hcard (List.Vector.toList_length challenge)
    hr hs hsigned.sLow hsigned.verifies
  refine KeycardCapture.verifyAttestation_of_trusted hrecover hpoint ?_ cas
  rw [verifyAttestation, hrecover]
  simp only [bind, Except.bind, List.any_cons, List.any_nil, hpoint, decide_true, Bool.or_false,
    Bool.not_true, Bool.false_eq_true, ↓reduceIte, hidentPub, hident, Except.mapError,
    lowS_signature hr hs hsigned.sLow, hverified]
  rfl

end Signatures

section Main

/-- What `mint` put together. -/
structure Assembled [Crypto] (caPriv cardPriv : Nat) (idCommitment : List UInt8) (m : Minted)
    (identPub caPub cert der bytes : List UInt8) (r s recid cr cs crecid : Nat) : Prop where
  cardKey : compressedPub cardPriv = some identPub
  caKey : compressedPub caPriv = some caPub
  certified : signPrehash caPriv (Crypto.sha256 identPub).toList = some (r, s, recid)
  signed : signPrehash cardPriv (Mint.boundChallenge idCommitment).toList = some (cr, cs, crecid)
  certificate : ∃ rBytes sBytes,
    toBytesChecked r 32 = some rBytes ∧ toBytesChecked s 32 = some sBytes ∧
    tlv 0x8A (identPub ++ rBytes ++ sBytes ++ [.ofNat recid]) = some cert
  signature : derEncode cr cs = some der
  template : tlv 0xA0 (cert ++ der) = some bytes
  output : m = {
    tlv := hexEncode bytes
    challenge := hexEncode (Mint.boundChallenge idCommitment).toList
    caPub := hexEncode caPub
    identPub := hexEncode identPub
    nullifier := hexEncode (Mint.keccak256 identPub) }

theorem mint_some [Crypto] {caPriv cardPriv : Nat} {idCommitment : List UInt8} {m : Minted}
    (h : mint caPriv cardPriv idCommitment = some m) :
    ∃ identPub caPub cert der bytes r s recid cr cs crecid,
      Assembled caPriv cardPriv idCommitment m identPub caPub cert der bytes r s recid
        cr cs crecid := by
  rw [mint] at h
  obtain ⟨identPub, hidentPub, h⟩ := Option.bind_eq_some_iff.mp h
  obtain ⟨⟨r, s, recid⟩, hcertified, h⟩ := Option.bind_eq_some_iff.mp h
  obtain ⟨rBytes, hrBytes, h⟩ := Option.bind_eq_some_iff.mp h
  obtain ⟨sBytes, hsBytes, h⟩ := Option.bind_eq_some_iff.mp h
  obtain ⟨⟨cr, cs, crecid⟩, hsigned, h⟩ := Option.bind_eq_some_iff.mp h
  obtain ⟨cert, hcert, h⟩ := Option.bind_eq_some_iff.mp h
  obtain ⟨der, hder, h⟩ := Option.bind_eq_some_iff.mp h
  obtain ⟨bytes, hbytes, h⟩ := Option.bind_eq_some_iff.mp h
  obtain ⟨caPub, hcaPub, h⟩ := Option.bind_eq_some_iff.mp h
  exact ⟨identPub, caPub, cert, der, bytes, r, s, recid, cr, cs, crecid, hidentPub, hcaPub,
    hcertified, hsigned, ⟨rBytes, sBytes, hrBytes, hsBytes, hcert⟩, hder, hbytes,
    (Option.some.inj h).symm⟩

theorem Assembled.mint [Crypto] {caPriv cardPriv : Nat} {idCommitment : List UInt8}
    {m : Minted} {identPub caPub cert der bytes : List UInt8} {r s recid cr cs crecid : Nat}
    (h : Assembled caPriv cardPriv idCommitment m identPub caPub cert der bytes r s recid
      cr cs crecid) : Mint.mint caPriv cardPriv idCommitment = some m := by
  obtain ⟨rBytes, sBytes, hrBytes, hsBytes, hcert⟩ := h.certificate
  rw [Mint.mint]
  refine Option.bind_eq_some_iff.mpr ⟨identPub, h.cardKey, ?_⟩
  refine Option.bind_eq_some_iff.mpr ⟨(r, s, recid), h.certified, ?_⟩
  refine Option.bind_eq_some_iff.mpr ⟨rBytes, hrBytes, ?_⟩
  refine Option.bind_eq_some_iff.mpr ⟨sBytes, hsBytes, ?_⟩
  refine Option.bind_eq_some_iff.mpr ⟨(cr, cs, crecid), h.signed, ?_⟩
  refine Option.bind_eq_some_iff.mpr ⟨cert, hcert, ?_⟩
  refine Option.bind_eq_some_iff.mpr ⟨der, h.signature, ?_⟩
  refine Option.bind_eq_some_iff.mpr ⟨bytes, h.template, ?_⟩
  refine Option.bind_eq_some_iff.mpr ⟨caPub, h.caKey, ?_⟩
  rw [h.output]
  rfl

/-- A key that the tool has is the encoding of its point. -/
theorem compressedPub_some {priv : Nat} {key : List UInt8} (h : compressedPub priv = some key) :
    priv • base ≠ 0 ∧ key = sec1 (priv • base) := by
  rw [compressedPub_eq] at h
  split at h
  · cases h
  · rename_i hdvd
    exact ⟨mt (nsmul_base_eq_zero priv).mp hdvd, (Option.some.inj h).symm⟩

/-- Both secrets have keys, and there are nonces to sign the card's key and the challenge
with. -/
structure Mintable [Crypto] (caPriv cardPriv : Nat) (idCommitment : List UInt8) : Prop where
  ca : ¬N ∣ caPriv
  card : ¬N ∣ cardPriv
  certified : ∃ ctr,
    UsableAt caPriv (Crypto.sha256 (sec1 (cardPriv • base))).toList ctr
  signed : ∃ ctr, UsableAt cardPriv (Mint.boundChallenge idCommitment).toList ctr

theorem signPrehash_of_usable [Crypto] {priv : Nat} {prehash : List UInt8}
    (h : ∃ ctr, UsableAt priv prehash ctr) : ∃ r s recid,
      signPrehash priv prehash = some (r, s, recid) ∧
        Signed priv (fromBytes prehash) r s recid := by
  rcases signPrehash_cases priv prehash with ⟨-, hnone⟩ | ⟨r, s, recid, c, hsome, -, hsigned⟩
  · exact absurd h.choose_spec (hnone _)
  · exact ⟨r, s, recid, hsome, hsigned⟩

theorem usable_of_signPrehash [Crypto] {priv : Nat} {prehash : List UInt8}
    {sig : Nat × Nat × Nat} (h : signPrehash priv prehash = some sig) :
    ∃ ctr, UsableAt priv prehash ctr := by
  rcases signPrehash_cases priv prehash with ⟨hnone, -⟩ | ⟨r, s, recid, c, -, hused, -⟩
  · cases hnone.symm.trans h
  · exact ⟨c, hused⟩

/-- Nothing that the tool encodes is too large for its encoding. -/
theorem mint_iff [Crypto] {caPriv cardPriv : Nat} {idCommitment : List UInt8} :
    (∃ m, mint caPriv cardPriv idCommitment = some m) ↔
      Mintable caPriv cardPriv idCommitment := by
  constructor
  · rintro ⟨m, h⟩
    obtain ⟨ident, ca, cert, der, bytes, r, s, recid, cr, cs, crecid, hm⟩ := mint_some h
    obtain ⟨hcard, hident⟩ := compressedPub_some hm.cardKey
    obtain ⟨hca, -⟩ := compressedPub_some hm.caKey
    exact ⟨mt (nsmul_base_eq_zero caPriv).mpr hca, mt (nsmul_base_eq_zero cardPriv).mpr hcard,
      hident ▸ usable_of_signPrehash hm.certified, usable_of_signPrehash hm.signed⟩
  · rintro ⟨hca, hcard, hcertified, hsigned⟩
    have hidentPub := compressedPub_eq cardPriv
    have hcaPub := compressedPub_eq caPriv
    rw [if_neg hcard] at hidentPub
    rw [if_neg hca] at hcaPub
    obtain ⟨r, s, recid, hcert, hcertSigned⟩ := signPrehash_of_usable hcertified
    obtain ⟨cr, cs, crecid, hsig, hsigSigned⟩ := signPrehash_of_usable hsigned
    obtain ⟨hr, hs⟩ := hcertSigned.scalars
    obtain ⟨hcr, hcs⟩ := hsigSigned.scalars
    have hlen := length_sec1 (mt (nsmul_base_eq_zero cardPriv).mp hcard)
    have hcertLen : (sec1 (cardPriv • base) ++ toBytes r 32 ++ toBytes s 32 ++
        [UInt8.ofNat recid]).length = 98 := by simp [hlen]
    obtain ⟨cert, hcertTlv, hcertTlvLen⟩ : ∃ cert, tlv 0x8A (sec1 (cardPriv • base) ++
        toBytes r 32 ++ toBytes s 32 ++ [UInt8.ofNat recid]) = some cert ∧ cert.length = 100 :=
      ⟨_, if_pos (by omega), by simp [hlen]⟩
    obtain ⟨body, der, hder, -, hderLen⟩ := derEncode_of_lt hcr.lt hcs.lt
    obtain ⟨bytes, hbytes⟩ := @tlv_of_length 0xA0 (cert ++ der)
      (by rw [List.length_append]; omega)
    have hassembled : Assembled caPriv cardPriv idCommitment _ _ _ cert der bytes r s recid
        cr cs crecid :=
      ⟨hidentPub, hcaPub, hcert, hsig, ⟨_, _, toBytesChecked_of_lt hr.lt,
        toBytesChecked_of_lt hs.lt, hcertTlv⟩, hder, hbytes, rfl⟩
    exact ⟨_, hassembled.mint⟩

/-- What the tool mints is for the verifier an attestation of the card's key, certified by
the other key: for the commitment it was minted for the verifier accepts it, and names
the nullifier that the tool prints, just where the certifying key is trusted. -/
theorem verifies_of_mint [K256] {caPriv cardPriv : Nat} {idCommitment : List UInt8}
    {m : Minted} (h : mint caPriv cardPriv idCommitment = some m) :
    ∃ (identPub caPub : Bytes 33) (bytes : List UInt8) (att : Attestation),
      m.identPub = hexEncode identPub.toList ∧ m.caPub = hexEncode caPub.toList ∧
      m.challenge = hexEncode (KeycardAttest.boundChallenge idCommitment).toList ∧
      m.nullifier = hexEncode (nullifier identPub).toList ∧
      m.tlv = hexEncode bytes ∧ parseAttestation bytes = .ok att ∧ att.identPub = identPub ∧
      ∀ q cas, q.payloadHex = m.tlv →
        hexDecode (trim0x q.idCommitmentHex) = .ok idCommitment →
        KeycardAuth.parseTrustedCas q.config = .ok cas → cas ≠ [] →
        KeycardAuth.verify q = .ok (if caPub ∈ cas then .accept (some m.nullifier)
          else KeycardCapture.untrustedCa) := by
  obtain ⟨ident, ca, cert, der, bytes, r, s, recid, cr, cs, crecid, hm⟩ := mint_some h
  obtain ⟨hcard, hident⟩ := compressedPub_some hm.cardKey
  obtain ⟨hcaNe, hca⟩ := compressedPub_some hm.caKey
  have hcertified := signed_of_signPrehash hm.certified
  have hsigned : Signed cardPriv
      (fromBytes (KeycardAttest.boundChallenge idCommitment).toList) cr cs crecid :=
    signed_of_signPrehash hm.signed
  obtain ⟨hr, hs⟩ := hcertified.scalars
  obtain ⟨hcr, hcs⟩ := hsigned.scalars
  obtain ⟨rBytes, sBytes, hrBytes, hsBytes, hcert⟩ := hm.certificate
  obtain rfl := Option.some.inj (hrBytes.symm.trans (toBytesChecked_of_lt hr.lt))
  obtain rfl := Option.some.inj (hsBytes.symm.trans (toBytesChecked_of_lt hs.lt))
  obtain ⟨⟨body, hbody⟩, hsig⟩ := fromDer_derEncode hcr hcs hm.signature
  let identPub : Bytes 33 := ⟨ident, hident ▸ length_sec1 hcard⟩
  let caPub : Bytes 33 := ⟨ca, hca ▸ length_sec1 hcaNe⟩
  let caSig : Bytes 65 := ⟨toBytes r 32 ++ toBytes s 32 ++ [.ofNat recid], by simp⟩
  have hparsed : parseAttestation bytes = .ok ⟨identPub, caSig, K256.signature cr cs⟩ := by
    refine parseAttestation_tlv hbody ?_ hm.template hsig
    rw [← hcert, List.append_assoc, List.append_assoc, ← List.append_assoc (toBytes r 32)]
    rfl
  have hcaPub : caPub.toList = sec1 (caPriv • base) := hca
  have hidentPub : identPub.toList = sec1 (cardPriv • base) := hident
  have hcaSig : caSig.toList = toBytes r 32 ++ toBytes s 32 ++ [.ofNat recid] := rfl
  have hverify := verifyAttestation_signed hcaNe hcard hcaPub hidentPub hcertified hcaSig
    hsigned
  have hnullifier : m.nullifier = hexEncode (nullifier identPub).toList := by
    rw [hm.output, nullifier, K256.keccak256_eq]
    rfl
  refine ⟨identPub, caPub, bytes, _, by rw [hm.output]; rfl, by rw [hm.output]; rfl,
    by rw [hm.output]; rfl, hnullifier, by rw [hm.output], hparsed, rfl, ?_⟩
  intro q cas hpayload hcommitment hcas hne
  have hlisted : cas.isEmpty = false := by simpa using hne
  have hdecode : hexDecode (trim0x q.payloadHex) = .ok bytes := by
    rw [hpayload, hm.output, trim0x_hexEncode, hexDecode_hexEncode]
  simp only [KeycardAuth.verify, verifyWith, hcas, hlisted, hdecode, hcommitment,
    KeycardAuth.checkAttestation, hparsed, hverify cas, Bool.false_eq_true, ↓reduceIte]
  by_cases htrusted : caPub ∈ cas
  · simp only [htrusted, ↓reduceIte, hnullifier]
  · simp only [htrusted, ↓reduceIte]
    rfl

/-- The tool mints whenever both secrets have keys and there are nonces to sign with, and
what it mints passes for the attestation of a card: the verifier accepts it, for the
commitment it was minted for and with the nullifier that the tool prints, just where the
certifying key is trusted. -/
theorem minted_verifies [K256] (caPriv cardPriv : Nat) (idCommitment : List UInt8) :
    ((∃ m, mint caPriv cardPriv idCommitment = some m) ↔
      Mintable caPriv cardPriv idCommitment) ∧
    ∀ m, mint caPriv cardPriv idCommitment = some m →
      ∃ (identPub caPub : Bytes 33) (bytes : List UInt8) (att : Attestation),
        m.identPub = hexEncode identPub.toList ∧ m.caPub = hexEncode caPub.toList ∧
        m.challenge = hexEncode (KeycardAttest.boundChallenge idCommitment).toList ∧
        m.nullifier = hexEncode (nullifier identPub).toList ∧
        m.tlv = hexEncode bytes ∧ parseAttestation bytes = .ok att ∧
        att.identPub = identPub ∧ ∀ q cas, q.payloadHex = m.tlv →
          hexDecode (trim0x q.idCommitmentHex) = .ok idCommitment →
          KeycardAuth.parseTrustedCas q.config = .ok cas → cas ≠ [] →
          KeycardAuth.verify q = .ok (if caPub ∈ cas then .accept (some m.nullifier)
            else KeycardCapture.untrustedCa) :=
  ⟨mint_iff, fun _ h => verifies_of_mint h⟩

section Sample

open Classical

/-- The numbers of a DER sequence of two, with lengths in the short form. -/
def readDer : List UInt8 → Except String (Nat × Nat)
  | 0x30 :: _ :: 0x02 :: len :: rest =>
      match rest.drop len.toNat with
      | 0x02 :: _ :: b => .ok (fromBytes (rest.take len.toNat), fromBytes b)
      | _ => .error "signature error"
  | _ => .error "signature error"

/-- The uncompressed SEC1 form of a point. -/
def sec1Full (Q : Point) : List UInt8 :=
  match ShortCurve.coords Q with
  | none => [0x00]
  | some (x, y) => 0x04 :: toBytes x.val 32 ++ toBytes y.val 32

/-- The point with a first coordinate and a parity. -/
def HasNonce (r odd : Nat) (R : Point) : Prop :=
  ∃ (x y : ZMod P), ShortCurve.coords R = some (x, y) ∧ x.val = r ∧ y.val % 2 = odd

/-- The crates as their documentation has them, with a hash that is always one. -/
@[reducible] noncomputable def sampleCrypto : Crypto where
  Signature := Nat × Nat
  VerifyingKey := Point
  RecoveryId := Nat
  sha256 _ := ⟨toBytes 1 32, length_toBytes 1 32⟩
  keccak256 data := ⟨Mint.keccak256 data, length_keccak256 data⟩
  fromDer := readDer
  fromSlice bytes :=
    if bytes.length = 64 ∧ IsScalar (fromBytes (bytes.take 32)) ∧
        IsScalar (fromBytes (bytes.drop 32)) then
      .ok (fromBytes (bytes.take 32), fromBytes (bytes.drop 32))
    else .error "signature error"
  normalizeS sig := if sig.2 ≤ N / 2 then none else some (sig.1, N - sig.2)
  fromByte b := if b.toNat < 4 then some b.toNat else none
  recoverFromPrehash z sig odd :=
    if h : ∃ R, HasNonce sig.1 odd R then
      if scheme.recovered h.choose (fromBytes z) sig.1 sig.2 ≠ 0 ∧ sig.2 ≤ N / 2 then
        .ok (scheme.recovered h.choose (fromBytes z) sig.1 sig.2)
      else .error "signature error"
    else .error "signature error"
  fromSec1Bytes bytes :=
    if h : ∃ Q, Q ≠ 0 ∧ sec1 Q = bytes then .ok h.choose else .error "signature error"
  verifyPrehash Q z sig := decide (sig.2 ≤ N / 2 ∧ scheme.Verifies Q (fromBytes z) sig.1 sig.2)
  toEncodedPoint Q compressed := if compressed then sec1 Q else sec1Full Q

theorem sample_fromByte (odd : Nat) (h : odd < 2) :
    sampleCrypto.fromByte (.ofNat odd) = some odd := by
  have hnat : (UInt8.ofNat odd).toNat = odd := by
    rw [UInt8.toNat_ofNat']
    omega
  have hlt : (UInt8.ofNat odd).toNat < 4 := by omega
  exact (if_pos hlt).trans (congrArg some hnat)

theorem sample_fromSlice (r s : Nat) (hr : IsScalar r) (hs : IsScalar s) :
    sampleCrypto.fromSlice (toBytes r 32 ++ toBytes s 32) = .ok (r, s) := by
  have htake : (toBytes r 32 ++ toBytes s 32).take 32 = toBytes r 32 :=
    List.take_left' (length_toBytes r 32)
  have hdrop : (toBytes r 32 ++ toBytes s 32).drop 32 = toBytes s 32 :=
    List.drop_left' (length_toBytes r 32)
  have hrBytes := fromBytes_toBytes (n := 32) hr.lt
  have hsBytes := fromBytes_toBytes (n := 32) hs.lt
  refine (if_pos ?_).trans ?_
  · rw [htake, hdrop, hrBytes, hsBytes]
    exact ⟨by simp, hr, hs⟩
  · rw [htake, hdrop, hrBytes, hsBytes]

theorem sample_fromDer (r s : Nat) (a b : List UInt8) (_ : IsScalar r) (_ : IsScalar s)
    (ha : DerInteger r a) (hb : DerInteger s b) (hlen : a.length + b.length + 4 < 0x80) :
    sampleCrypto.fromDer (0x30 :: .ofNat (a.length + b.length + 4) ::
      (0x02 :: .ofNat a.length :: a ++ 0x02 :: .ofNat b.length :: b)) = .ok (r, s) := by
  have hnat : (UInt8.ofNat a.length).toNat = a.length := by
    rw [UInt8.toNat_ofNat']
    omega
  change readDer _ = _
  simp [readDer, hnat, ha.value, hb.value]

theorem sample_fromSec1Bytes (Q : Point) (hQ : Q ≠ 0) :
    sampleCrypto.fromSec1Bytes (sec1 Q) = .ok Q := by
  have h : ∃ Q', Q' ≠ 0 ∧ sec1 Q' = sec1 Q := ⟨Q, hQ, rfl⟩
  exact (dif_pos h).trans (congrArg _ (sec1_injective h.choose_spec.2))

theorem sample_recoverFromPrehash (R : Point) (x y : ZMod P) (z : List UInt8) (s : Nat)
    (hR : ShortCurve.coords R = some (x, y)) (hlow : s ≤ N / 2)
    (hne : scheme.recovered R (fromBytes z) x.val s ≠ 0) :
    sampleCrypto.recoverFromPrehash z (x.val, s) (y.val % 2) =
      .ok (scheme.recovered R (fromBytes z) x.val s) := by
  have h : ∃ R', HasNonce x.val (y.val % 2) R' := ⟨R, x, y, hR, rfl, rfl⟩
  have hsame : h.choose = R := by
    obtain ⟨x', y', hcoords, hx, hy⟩ := h.choose_spec
    obtain rfl := ZMod.val_injective P hx
    exact coords_parity hcoords hR hy
  refine (dif_pos h).trans ?_
  rw [hsame]
  exact if_pos ⟨hne, hlow⟩

@[reducible] noncomputable def sampleK256 : K256 where
  toCrypto := sampleCrypto
  signature r s := (r, s)
  verifyingKey Q := Q
  recoveryId odd := odd
  fromByte_eq := sample_fromByte
  fromSlice_eq := sample_fromSlice
  fromDer_eq := sample_fromDer
  normalizeS_eq _ _ _ _ hlow := if_pos hlow
  fromSec1Bytes_eq := sample_fromSec1Bytes
  toEncodedPoint_eq _ _ := if_pos rfl
  verifyPrehash_eq _ _ _ _ _ _ _ _ hlow hverifies := decide_eq_true ⟨hlow, hverifies⟩
  recoverFromPrehash_eq R x y z s hR _ _ _ hlow hne :=
    sample_recoverFromPrehash R x y z s hR hlow hne
  keccak256_eq _ := rfl

theorem mint_sample : letI := sampleK256
    (mint 1 2 (List.replicate 32 7)).isSome = true := by
  decide +kernel

theorem minted_verifies_sample : letI := sampleK256
    ∃ m, mint 1 2 (List.replicate 32 7) = some m ∧
      ∃ (identPub caPub : Bytes 33) (bytes : List UInt8) (att : Attestation),
        m.identPub = hexEncode identPub.toList ∧ m.caPub = hexEncode caPub.toList ∧
        m.challenge = hexEncode (KeycardAttest.boundChallenge (List.replicate 32 7)).toList ∧
        m.nullifier = hexEncode (nullifier identPub).toList ∧
        m.tlv = hexEncode bytes ∧ parseAttestation bytes = .ok att ∧ att.identPub = identPub ∧
        ∀ q cas, q.payloadHex = m.tlv →
          hexDecode (trim0x q.idCommitmentHex) = .ok (List.replicate 32 7) →
          KeycardAuth.parseTrustedCas q.config = .ok cas → cas ≠ [] →
          KeycardAuth.verify q = .ok (if caPub ∈ cas then .accept (some m.nullifier)
            else KeycardCapture.untrustedCa) := by
  obtain ⟨m, hm⟩ := Option.isSome_iff_exists.mp mint_sample
  exact ⟨m, hm, (@minted_verifies sampleK256 _ _ _).2 m hm⟩

end Sample

end Main

end Mint

end RlnGifter
