/-
The encoder of `mint_attest.py`, and that the TLV reader undoes it: through both
nested levels a tag is found with its value, whatever form its length takes.
-/
import Mathlib.Data.Nat.Size
import RlnGifter.Attest

namespace RlnGifter

namespace Mint

open KeycardAttest

/-- `tlv`.  A length of more than two bytes raises `ValueError`. -/
def tlv (tag : UInt8) (value : List UInt8) : Option (List UInt8) :=
  let len := value.length
  if len < 0x80 then some (tag :: .ofNat len :: value)
  else if len ≤ 0xFF then some (tag :: 0x81 :: .ofNat len :: value)
  else if len >>> 8 ≤ 0xFF then
    some (tag :: 0x82 :: .ofNat (len >>> 8) :: .ofNat (len &&& 0xFF) :: value)
  else none

/-- The concatenated encodings of tagged values. -/
def tlvs (entries : List (UInt8 × List UInt8)) : Option (List UInt8) :=
  (entries.mapM fun entry => tlv entry.1 entry.2).map List.flatten

/-- `v.to_bytes(n, "big")`. -/
def toBytes (v : Nat) : Nat → List UInt8
  | 0 => []
  | n + 1 => .ofNat (v >>> (8 * n)) :: toBytes v n

/-- The content of a DER integer: as few bytes as hold the number and a clear sign
bit. -/
def intBytes (v : Nat) : List UInt8 :=
  let n := (v.size + 7) / 8
  let b := toBytes v (if n = 0 then 1 else n)
  if b.headD 0 &&& 0x80 ≠ 0 then 0x00 :: b else b

/-- `enc_int`. -/
def encInt (v : Nat) : Option (List UInt8) :=
  let b := intBytes v
  if b.length ≤ 0xFF then some (0x02 :: .ofNat b.length :: b) else none

def derEncode (r s : Nat) : Option (List UInt8) := do
  let body := (← encInt r) ++ (← encInt s)
  if body.length ≤ 0xFF then return 0x30 :: .ofNat body.length :: body else none

section Read

variable {tag : UInt8} {value enc : List UInt8}

theorem tlv_of_length (h : value.length ≤ 0xFFFF) : ∃ enc, tlv tag value = some enc := by
  have hhigh : value.length >>> 8 ≤ 0xFF := by
    rw [Nat.shiftRight_eq_div_pow]
    omega
  by_cases hshort : value.length < 0x80
  · exact ⟨_, if_pos hshort⟩
  · by_cases hbyte : value.length ≤ 0xFF
    · exact ⟨_, (if_neg hshort).trans (if_pos hbyte)⟩
    · exact ⟨_, (if_neg hshort).trans ((if_neg hbyte).trans (if_pos hhigh))⟩

/-- The two bytes of a length, put together again. -/
theorem join_bytes {n : Nat} (h : n >>> 8 ≤ 0xFF) :
    (UInt8.ofNat (n >>> 8)).toNat <<< 8 ||| (UInt8.ofNat (n &&& 0xFF)).toNat = n := by
  have hlow : n &&& 0xFF = n % 256 := Nat.and_two_pow_sub_one_eq_mod n 8
  rw [Nat.shiftRight_eq_div_pow] at h ⊢
  rw [UInt8.toNat_ofNat', UInt8.toNat_ofNat', hlow, Nat.mod_mod,
    Nat.mod_eq_of_lt (Nat.lt_succ_of_le h), ← Nat.shiftLeft_add_eq_or_of_lt (by omega),
    Nat.shiftLeft_eq]
  omega

/-- The header of an encoding gives back the length of the value, and says where the
value starts. -/
theorem readLen_tlv (h : tlv tag value = some enc) (before rest : List UInt8) :
    ∃ header, enc = tag :: header ++ value ∧ header ≠ [] ∧
      readLen (before ++ (enc ++ rest)) (before.length + 1) =
        .ok (value.length, header.length) := by
  have hget : ∀ (bytes : List UInt8) (k : Nat),
      (before ++ bytes)[before.length + k]? = bytes[k]? := by
    intro bytes k
    rw [List.getElem?_append_right (Nat.le_add_right _ _), Nat.add_sub_cancel_left]
  rw [tlv] at h
  split at h
  · rename_i hshort
    cases h
    refine ⟨[.ofNat value.length], rfl, by simp, ?_⟩
    have hbyte : UInt8.ofNat value.length < 0x80 := by
      rw [UInt8.lt_iff_toNat_lt, UInt8.toNat_ofNat']
      exact lt_of_le_of_lt (Nat.mod_le _ _) hshort
    have hnat : (UInt8.ofNat value.length).toNat = value.length := by
      rw [UInt8.toNat_ofNat']
      omega
    simp [readLen, hbyte, hnat]
  · split at h
    · rename_i hbyte
      cases h
      have hnat : (UInt8.ofNat value.length).toNat = value.length := by
        rw [UInt8.toNat_ofNat']
        omega
      refine ⟨[0x81, .ofNat value.length], rfl, by simp, ?_⟩
      simp [readLen, hget, Nat.add_assoc, hnat]
    · split at h
      · rename_i hword
        cases h
        refine ⟨[0x82, .ofNat (value.length >>> 8), .ofNat (value.length &&& 0xFF)], rfl,
          by simp, ?_⟩
        simpa [readLen, hget, Nat.add_assoc] using join_bytes hword
      · cases h

theorem slice_append (before bytes rest : List UInt8) :
    slice (before ++ (bytes ++ rest)) before.length (before.length + bytes.length) = bytes := by
  simp [slice]

/-- At an encoding the reader returns it, or goes on behind it. -/
theorem findTagFrom_tlv (h : tlv tag value = some enc) (before rest : List UInt8)
    (wanted : UInt8) :
    findTagFrom (before ++ (enc ++ rest)) wanted before.length =
      if tag = wanted then .ok (value, enc)
      else findTagFrom (before ++ (enc ++ rest)) wanted (before.length + enc.length) := by
  obtain ⟨header, rfl, hheader, hread⟩ := readLen_tlv h before rest
  have hlen : 0 < header.length := List.length_pos_iff.mpr hheader
  have hend : before.length + 1 + header.length + value.length =
      before.length + (tag :: header ++ value).length := by
    simp only [List.length_append, List.length_cons]
    omega
  have htag : (before ++ (tag :: header ++ value ++ rest))[before.length]? = some tag := by
    simp
  have hvalue : slice (before ++ (tag :: header ++ value ++ rest))
      (before.length + 1 + header.length)
      (before.length + (tag :: header ++ value).length) = value := by
    have hsplit := slice_append (before ++ tag :: header) value rest
    simpa [Nat.add_assoc, Nat.add_comm, Nat.add_left_comm] using hsplit
  rw [findTagFrom, if_pos (by simp; omega), hread]
  simp only [hend, htag, hvalue, slice_append, Option.some.injEq]
  rw [if_neg (by simp)]

theorem tlvs_cons {entry : UInt8 × List UInt8} {entries : List (UInt8 × List UInt8)}
    {buf : List UInt8} (h : tlvs (entry :: entries) = some buf) :
    ∃ enc rest, tlv entry.1 entry.2 = some enc ∧ tlvs entries = some rest ∧
      buf = enc ++ rest := by
  obtain ⟨encs, hencs, rfl⟩ := Option.map_eq_some_iff.mp h
  rw [List.mapM_cons] at hencs
  obtain ⟨enc, henc, hencs⟩ := Option.bind_eq_some_iff.mp hencs
  obtain ⟨rest, hrest, hencs⟩ := Option.bind_eq_some_iff.mp hencs
  cases hencs
  refine ⟨enc, rest.flatten, henc, ?_, List.flatten_cons⟩
  rw [tlvs, hrest]
  rfl

/-- The reader finds the first entry with the tag, and reports its absence. -/
theorem findTagFrom_tlvs {entries : List (UInt8 × List UInt8)} {buf : List UInt8}
    (h : tlvs entries = some buf) (before : List UInt8) (wanted : UInt8) :
    match entries.find? fun entry => entry.1 = wanted with
    | some entry => ∃ enc, tlv entry.1 entry.2 = some enc ∧
        findTagFrom (before ++ buf) wanted before.length = .ok (entry.2, enc)
    | none => findTagFrom (before ++ buf) wanted before.length = .error (tagNotFound wanted) := by
  induction entries generalizing before buf with
  | nil =>
      cases h
      rw [List.find?_nil, findTagFrom, if_neg (by simp)]
  | cons entry entries ih =>
      obtain ⟨enc, rest, henc, hrest, rfl⟩ := tlvs_cons h
      have hfirst := findTagFrom_tlv henc before rest wanted
      by_cases htag : entry.1 = wanted
      · rw [if_pos htag] at hfirst
        simp only [List.find?_cons, htag, decide_true]
        exact ⟨enc, htag ▸ henc, hfirst⟩
      · have hnext := ih hrest (before ++ enc)
        rw [if_neg htag] at hfirst
        rw [List.length_append, List.append_assoc, ← hfirst] at hnext
        simp only [List.find?_cons, htag, decide_false]
        exact hnext

/-- Values of at most two bytes of length can all be encoded. -/
theorem tlvs_of_length {entries : List (UInt8 × List UInt8)}
    (h : ∀ entry ∈ entries, entry.2.length ≤ 0xFFFF) : ∃ buf, tlvs entries = some buf := by
  induction entries with
  | nil => exact ⟨[], rfl⟩
  | cons entry entries ih =>
      obtain ⟨hentry, hentries⟩ := List.forall_mem_cons.mp h
      obtain ⟨enc, henc⟩ := @tlv_of_length entry.1 entry.2 hentry
      obtain ⟨buf, hbuf⟩ := ih hentries
      obtain ⟨encs, hencs, rfl⟩ := Option.map_eq_some_iff.mp hbuf
      exact ⟨enc ++ encs.flatten, by simp [tlvs, List.mapM_cons, henc, hencs]⟩

end Read

section Der

@[simp] theorem length_toBytes (v n : Nat) : (toBytes v n).length = n := by
  induction n with
  | zero => rfl
  | succ n ih => rw [toBytes, List.length_cons, ih]

theorem length_intBytes {v : Nat} (h : v < 2 ^ 256) : (intBytes v).length ≤ 33 := by
  have hsize : v.size ≤ 256 := Nat.size_le.mpr h
  have hbytes : (toBytes v (if (v.size + 7) / 8 = 0 then 1 else (v.size + 7) / 8)).length ≤
      32 := by
    rw [length_toBytes]
    split <;> omega
  rw [intBytes]
  generalize toBytes v (if (v.size + 7) / 8 = 0 then 1 else (v.size + 7) / 8) = b at hbytes
  change (if b.headD 0 &&& 0x80 ≠ 0 then 0x00 :: b else b).length ≤ 33
  split
  · exact Nat.succ_le_succ hbytes
  · exact Nat.le_succ_of_le hbytes

theorem encInt_of_lt {v : Nat} (h : v < 2 ^ 256) :
    ∃ enc, encInt v = some enc ∧ enc.length ≤ 35 := by
  have hlen := length_intBytes h
  refine ⟨_, if_pos (by omega), ?_⟩
  simp only [List.length_cons]
  omega

/-- A signature below the curve's size is one TLV entry in the short form. -/
theorem derEncode_of_lt {r s : Nat} (hr : r < 2 ^ 256) (hs : s < 2 ^ 256) :
    ∃ body der, derEncode r s = some der ∧ tlv tagDerSequence body = some der ∧
      der.length ≤ 72 := by
  obtain ⟨rEnc, hrEnc, hrLen⟩ := encInt_of_lt hr
  obtain ⟨sEnc, hsEnc, hsLen⟩ := encInt_of_lt hs
  have hlen : (rEnc ++ sEnc).length ≤ 70 := by
    rw [List.length_append]
    omega
  refine ⟨rEnc ++ sEnc, 0x30 :: .ofNat (rEnc ++ sEnc).length :: (rEnc ++ sEnc), ?_,
    if_pos (by omega), Nat.add_le_add_right hlen 2⟩
  rw [derEncode, hrEnc, hsEnc]
  exact if_pos (by omega)

end Der

section Attestation

theorem splitCertificate_append (identPub : Bytes 33) (caSig : Bytes 65) :
    splitCertificate (identPub.toList ++ caSig.toList) = .ok (identPub, caSig) := by
  have hlen : (identPub.toList ++ caSig.toList).length = certificateLen := by
    simp [certificateLen]
  rw [splitCertificate, dif_pos hlen]
  congr 2
  · apply List.Vector.eq
    simp
  · apply List.Vector.eq
    simp

variable [Crypto]

/-- An attestation whose parts are found is read up to its DER signature. -/
theorem parseAttestation_eq {bytes template cert body der enc enc' : List UInt8}
    {identPub : Bytes 33} {caSig : Bytes 65}
    (htemplate : findTag bytes tagSignatureTemplate = .ok (template, enc))
    (hcert : findTag template tagCertificate = .ok (cert, enc'))
    (hsplit : splitCertificate cert = .ok (identPub, caSig))
    (hder : findTag template tagDerSequence = .ok (body, der)) :
    parseAttestation bytes =
      ((Crypto.fromDer der).mapError
        fun e => .invalidInput ("challenge sig DER: " ++ e)).map
          fun challengeSig => ⟨identPub, caSig, challengeSig⟩ := by
  rw [parseAttestation, htemplate]
  simp only [bind, Except.bind, hcert, hsplit, hder]
  cases Crypto.fromDer der with
  | error e => rfl
  | ok challengeSig => rfl

/-- The reader undoes the encoder, for TLV entries of any tags and lengths and so for
whole attestations: what it returns is the identity key, the certificate's signature
and what the signature's own decoder makes of its DER form. -/
theorem attestation_undone :
    (∀ entries : List (UInt8 × List UInt8),
      (∀ entry ∈ entries, entry.2.length ≤ 65535) → ∃ buf, tlvs entries = some buf ∧
        ∀ tag, match entries.find? fun entry => entry.1 = tag with
          | some entry => ∃ enc, tlv entry.1 entry.2 = some enc ∧
              findTag buf tag = .ok (entry.2, enc)
          | none => findTag buf tag = .error (tagNotFound tag)) ∧
    ∀ (identPub : Bytes 33) (caSig : Bytes 65) (r s : Nat), r < 2 ^ 256 → s < 2 ^ 256 →
      ∃ der cert attestation, derEncode r s = some der ∧
        tlv 0x8A (identPub.toList ++ caSig.toList) = some cert ∧
        tlv 0xA0 (cert ++ der) = some attestation ∧
        parseAttestation attestation =
          ((Crypto.fromDer der).mapError
            fun e => .invalidInput ("challenge sig DER: " ++ e)).map
              fun challengeSig => ⟨identPub, caSig, challengeSig⟩ := by
  constructor
  · intro entries hentries
    obtain ⟨buf, hbuf⟩ := tlvs_of_length hentries
    exact ⟨buf, hbuf, findTagFrom_tlvs hbuf []⟩
  · intro identPub caSig r s hr hs
    obtain ⟨body, der, hder, hbody, hderLen⟩ := derEncode_of_lt hr hs
    have hlen : (identPub.toList ++ caSig.toList).length = 98 := by simp
    obtain ⟨cert, hcert, hcertLen⟩ : ∃ cert,
        tlv tagCertificate (identPub.toList ++ caSig.toList) = some cert ∧ cert.length = 100 :=
      ⟨_, if_pos (by omega), by simp⟩
    obtain ⟨attestation, hattestation⟩ := @tlv_of_length tagSignatureTemplate (cert ++ der)
      (by rw [List.length_append]; omega)
    have htemplate : tlvs [(tagCertificate, identPub.toList ++ caSig.toList),
        (tagDerSequence, body)] = some (cert ++ der) := by
      simp [tlvs, List.mapM_cons, hcert, hbody]
    have hwhole : tlvs [(tagSignatureTemplate, cert ++ der)] = some attestation := by
      simp [tlvs, List.mapM_cons, hattestation]
    obtain ⟨enc, -, hfindTemplate⟩ := findTagFrom_tlvs hwhole [] tagSignatureTemplate
    obtain ⟨enc', -, hfindCert⟩ := findTagFrom_tlvs htemplate [] tagCertificate
    obtain ⟨der', hder', hfindDer⟩ := findTagFrom_tlvs htemplate [] tagDerSequence
    obtain rfl := Option.some.inj (hbody.symm.trans hder')
    change findTag attestation tagSignatureTemplate = .ok (cert ++ der, enc) at hfindTemplate
    change findTag (cert ++ der) tagCertificate = .ok (_, enc') at hfindCert
    change findTag (cert ++ der) tagDerSequence = .ok (body, der) at hfindDer
    refine ⟨der, cert, attestation, hder, hcert, hattestation, ?_⟩
    exact parseAttestation_eq hfindTemplate hfindCert (splitCertificate_append identPub caSig)
      hfindDer

end Attestation

end Mint

end RlnGifter
