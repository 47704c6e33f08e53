/-
Keycard attestations: the TLV reader of an IDENTIFY_CARD response, and the check
that a genuine card signed the challenge of one commitment.
-/
import Mathlib.Data.Vector.Basic
import RlnGifter.Hex

namespace RlnGifter

/-- An array of bytes of fixed length. -/
abbrev Bytes (n : Nat) : Type := List.Vector UInt8 n

/-- The hash functions and the signature scheme, as the crates that implement them
offer them.  Nothing is assumed of them. -/
class Crypto where
  Signature : Type
  VerifyingKey : Type
  RecoveryId : Type
  sha256 : List UInt8 → Bytes 32
  keccak256 : List UInt8 → Bytes 32
  fromDer : List UInt8 → Except String Signature
  fromSlice : List UInt8 → Except String Signature
  normalizeS : Signature → Option Signature
  fromByte : UInt8 → Option RecoveryId
  recoverFromPrehash : List UInt8 → Signature → RecoveryId → Except String VerifyingKey
  fromSec1Bytes : List UInt8 → Except String VerifyingKey
  verifyPrehash : VerifyingKey → List UInt8 → Signature → Bool
  toEncodedPoint : VerifyingKey → Bool → List UInt8

namespace KeycardAttest

/-- `keycard_attest::error::Error`. -/
inductive Error where
  | backend (m : String)
  | invalidSignature
  | invalidInput (m : String)
deriving DecidableEq

/-- `Display` of an error. -/
def Error.message : Error → String
  | .backend m => "keycard backend error: " ++ m
  | .invalidSignature => "signature does not verify"
  | .invalidInput m => "invalid input: " ++ m

def tagSignatureTemplate : UInt8 := 0xA0
def tagCertificate : UInt8 := 0x8A
def tagDerSequence : UInt8 := 0x30
def certificateLen : Nat := 98

/-- `ATTEST_DOMAIN`. -/
def attestDomain : List UInt8 :=
  utf8 "logos/rln/keycard-attest/1"

/-- `STATUS_PRODUCTION_CA`. -/
def statusProductionCa : Bytes 33 :=
  ⟨[0x02, 0x9a, 0xb9, 0x9e, 0xe1, 0xe7, 0xa7, 0x1b, 0xdf, 0x45, 0xb3, 0xf9, 0xc5, 0x8c, 0x99,
    0x86, 0x6f, 0xf1, 0x29, 0x4d, 0x2c, 0x1e, 0x30, 0x4e, 0x22, 0x8a, 0x86, 0xe1, 0x0c, 0x33,
    0x43, 0x50, 0x1c], rfl⟩

/-- The length at `i`, and the number of bytes it takes. -/
def readLen (buf : List UInt8) (i : Nat) : Except Error (Nat × Nat) :=
  match buf[i]? with
  | none => .error (.invalidInput "tlv length truncated")
  | some l0 =>
      if l0 < 0x80 then .ok (l0.toNat, 1)
      else if l0 = 0x81 then
        match buf[i + 1]? with
        | none => .error (.invalidInput "tlv len81")
        | some l1 => .ok (l1.toNat, 2)
      else if l0 = 0x82 then
        match buf[i + 1]?, buf[i + 2]? with
        | some hi, some lo => .ok (hi.toNat <<< 8 ||| lo.toNat, 3)
        | _, _ => .error (.invalidInput "tlv len82")
      else .error (.invalidInput "unsupported tlv length form")

/-- `&buf[start..stop]`. -/
def slice (buf : List UInt8) (start stop : Nat) : List UInt8 :=
  (buf.drop start).take (stop - start)

/-- The error of a tag that is not there. -/
def tagNotFound (tag : UInt8) : Error :=
  .invalidInput ("tlv tag 0x" ++ hexEncode [tag] ++ " not found")

/-- The loop of `find_tag` from position `i`.  A length is below `2 ^ 16`, so the
end of a value never overflows. -/
def findTagFrom (buf : List UInt8) (tag : UInt8) (i : Nat) :
    Except Error (List UInt8 × List UInt8) :=
  if i + 1 < buf.length then
    match readLen buf (i + 1) with
    | .error e => .error e
    | .ok (vlen, lhdr) =>
        let vstart := i + 1 + lhdr
        let vend := vstart + vlen
        if buf.length < vend then .error (.invalidInput "tlv value out of range")
        else if buf[i]? = some tag then .ok (slice buf vstart vend, slice buf i vend)
        else findTagFrom buf tag vend
  else .error (tagNotFound tag)
termination_by buf.length - i

/-- The value and the full encoding of the first entry with a tag. -/
def findTag (buf : List UInt8) (tag : UInt8) : Except Error (List UInt8 × List UInt8) :=
  findTagFrom buf tag 0

section Crypto

variable [Crypto]

/-- A parsed IDENTIFY_CARD response. -/
structure Attestation where
  identPub : Bytes 33
  caSig : Bytes 65
  challengeSig : Crypto.Signature

/-- The challenge the card signs for a commitment. -/
def boundChallenge (idCommitment : List UInt8) : Bytes 32 :=
  Crypto.sha256 (attestDomain ++ idCommitment)

/-- The nullifier of a card. -/
def nullifier (identPub : Bytes 33) : Bytes 32 :=
  Crypto.keccak256 identPub.toList

/-- The two parts of a certificate. -/
def splitCertificate (cert : List UInt8) : Except Error (Bytes 33 × Bytes 65) :=
  if h : cert.length = certificateLen then
    .ok (⟨cert.take 33, by rw [List.length_take, h]; rfl⟩,
      ⟨cert.drop 33, by rw [List.length_drop, h]; rfl⟩)
  else .error (.invalidInput "certificate must be 98 bytes")

def parseAttestation (tlv : List UInt8) : Except Error Attestation := do
  let (template, _) ← findTag tlv tagSignatureTemplate
  let (cert, _) ← findTag template tagCertificate
  let (identPub, caSig) ← splitCertificate cert
  let (_, derFull) ← findTag template tagDerSequence
  let challengeSig ← (Crypto.fromDer derFull).mapError
    fun e => .invalidInput ("challenge sig DER: " ++ e)
  return ⟨identPub, caSig, challengeSig⟩

/-- The key the certificate's signature recovers. -/
def recoverCa (att : Attestation) : Except Error Crypto.VerifyingKey :=
  match Crypto.fromByte att.caSig.last with
  | none => .error (.invalidInput "bad CA recovery id")
  | some recid => do
      let caSig ← (Crypto.fromSlice (att.caSig.toList.take 64)).mapError
        fun e => .invalidInput ("CA sig: " ++ e)
      (Crypto.recoverFromPrehash (Crypto.sha256 att.identPub.toList).toList caSig recid).mapError
        fun e => .invalidInput ("CA recover: " ++ e)

/-- The card's signature over the challenge, with a low S. -/
def lowS (sig : Crypto.Signature) : Crypto.Signature :=
  (Crypto.normalizeS sig).getD sig

def verifyAttestation (att : Attestation) (trustedCas : List (Bytes 33))
    (expectedChallenge : Bytes 32) : Except Error (Bytes 32) := do
  let ca ← recoverCa att
  if !trustedCas.any fun t => t.toList = Crypto.toEncodedPoint ca true then
    throw (.backend "attestation CA is not trusted")
  let ident ← (Crypto.fromSec1Bytes att.identPub.toList).mapError
    fun e => .invalidInput ("ident pub: " ++ e)
  if Crypto.verifyPrehash ident expectedChallenge.toList (lowS att.challengeSig) then
    return nullifier att.identPub
  else throw .invalidSignature

end Crypto

end KeycardAttest

end RlnGifter
