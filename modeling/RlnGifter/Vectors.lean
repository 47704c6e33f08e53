/-
The verifiers of the repository: keycard attestations and signatures of allowlisted
addresses, each the one vector of its module.
-/
import RlnGifter.Attest
import RlnGifter.Doubles

namespace RlnGifter

/-- The array under a key of a verifier's configuration, each entry read as a string
by `entry`, up to the first error. -/
def configEntries {α : Type} (key missing : String)
    (entry : Option String → Except String α) (config : Option Value) :
    Except String (List α) :=
  match (config.bind (Value.get · key)).bind Value.asArray with
  | none => .error missing
  | some items => items.mapM fun item => entry item.asStr

section Entries

variable {α : Type} {key missing : String} {entry : Option String → Except String α}

/-- Nothing of a configuration's doubles is read. -/
theorem configEntries_of_erased {config config' : Option Value}
    (h : config'.map Value.erased = config.map Value.erased) :
    configEntries key missing entry config' = configEntries key missing entry config := by
  have hitems : ∀ c : Option Value,
      ((c.bind (Value.get · key)).bind Value.asArray).map (List.map Value.erased) =
        ((c.map Value.erased).bind fun j => lookupField key (Value.fieldsOf j)).bind
          Value.itemsOf := by
    intro c
    cases c with
    | none => rfl
    | some v =>
        rw [Option.bind_some, Option.map_some, Option.bind_some, ← Value.map_erased_get]
        cases v.get key with
        | none => rfl
        | some field => exact field.map_erased_asArray
  have hread : ∀ c : Option Value, configEntries key missing entry c =
      match ((c.bind (Value.get · key)).bind Value.asArray).map (List.map Value.erased) with
      | none => .error missing
      | some items => items.mapM fun j => entry (Value.stringOf j) := by
    intro c
    rw [configEntries]
    cases (c.bind (Value.get · key)).bind Value.asArray with
    | none => rfl
    | some items =>
        simp only [Option.map_some, List.mapM_map, Function.comp_def, Value.asStr_eq]
  rw [hread, hread, hitems, hitems, h]

theorem configEntries_optValue (config : Option Value) :
    configEntries key missing entry (Value.optValue config) =
      configEntries key missing entry config := by
  cases config with
  | none => rfl
  | some v =>
      rw [Value.optValue]
      split
      · rename_i hview
        rw [Value.eq_null_of_view hview]
        rfl
      · rfl

/-- Two requests that differ in doubles at most are configured alike. -/
theorem VerifyRequest.SameAs.configEntries {q' q : VerifyRequest} (h : q'.SameAs q) :
    configEntries key missing entry q'.config = configEntries key missing entry q.config :=
  (configEntries_of_erased h.config).trans (configEntries_optValue q.config)

/-- An entry that was read comes from an item of the array. -/
theorem mem_configEntries {config : Option Value} {entries : List α}
    (h : configEntries key missing entry config = .ok entries) {x : α} (hx : x ∈ entries) :
    ∃ items item, (config.bind (Value.get · key)).bind Value.asArray = some items ∧
      item ∈ items ∧ entry item.asStr = .ok x := by
  rw [configEntries] at h
  split at h
  · cases h
  · rename_i items hitems
    have hmem : ∃ item ∈ items, entry item.asStr = .ok x := by
      clear hitems
      induction items generalizing entries with
      | nil =>
          cases h
          cases hx
      | cons head items ih =>
          rw [List.mapM_cons] at h
          cases hhead : entry head.asStr with
          | error e =>
              rw [hhead] at h
              cases h
          | ok first =>
              cases hrest : items.mapM fun item => entry item.asStr with
              | error e =>
                  rw [hhead, hrest] at h
                  cases h
              | ok rest =>
                  rw [hhead, hrest] at h
                  cases h
                  rcases List.mem_cons.mp hx with rfl | hx
                  · exact ⟨head, List.mem_cons_self, hhead⟩
                  · obtain ⟨item, hitem, hread⟩ := ih hx hrest
                    exact ⟨item, List.mem_cons_of_mem _ hitem, hread⟩
    obtain ⟨item, hitem, hread⟩ := hmem
    exact ⟨items, item, hitems, hitem, hread⟩

end Entries

/-- How a vector of the repository verifies: its configuration must list something,
and what is presented for a commitment is checked against the list.  A configuration
that cannot be used is an error, a payload that does not verify is rejected. -/
def verifyWith {α : Type} (parseConfig : Option Value → Except String (List α))
    (empty : String) (check : List α → List UInt8 → List UInt8 → Except String String)
    (req : VerifyRequest) : Except String Verdict :=
  match parseConfig req.config with
  | .error e => .error e
  | .ok listed =>
      if listed.isEmpty then .error empty
      else
        match hexDecode (trim0x req.payloadHex) with
        | .error e => .ok (.reject ("payload hex: " ++ e.message))
        | .ok payload =>
            match hexDecode (trim0x req.idCommitmentHex) with
            | .error e => .ok (.reject ("id_commitment hex: " ++ e.message))
            | .ok idCommitment =>
                match check listed payload idCommitment with
                | .error reason => .ok (.reject reason)
                | .ok nullifier => .ok (.accept (some nullifier))

/-- What an accepting verdict stands for. -/
theorem verifyWith_accepts {α : Type} {parseConfig : Option Value → Except String (List α)}
    {empty : String} {check : List α → List UInt8 → List UInt8 → Except String String}
    {q : VerifyRequest} {verdict : Verdict}
    (h : verifyWith parseConfig empty check q = .ok verdict) (hok : verdict.ok = true) :
    ∃ listed payload idCommitment nul, parseConfig q.config = .ok listed ∧
      hexDecode (trim0x q.payloadHex) = .ok payload ∧
      hexDecode (trim0x q.idCommitmentHex) = .ok idCommitment ∧
      check listed payload idCommitment = .ok nul ∧ verdict.nullifier = some nul := by
  rw [verifyWith] at h
  split at h
  · cases h
  · rename_i listed hlisted
    split at h
    · cases h
    · split at h
      · cases h
        cases hok
      · rename_i payload hpayload
        split at h
        · cases h
          cases hok
        · rename_i idCommitment hcommitment
          split at h
          · cases h
            cases hok
          · rename_i nul hnul
            cases h
            exact ⟨listed, payload, idCommitment, nul, hlisted, hpayload, hcommitment, hnul,
              rfl⟩

theorem verifyWith_of_check {α : Type} {parseConfig : Option Value → Except String (List α)}
    {empty nul : String} {check : List α → List UInt8 → List UInt8 → Except String String}
    {q : VerifyRequest} {listed : List α} {payload idCommitment : List UInt8}
    (hlisted : parseConfig q.config = .ok listed) (hne : listed ≠ [])
    (hpayload : hexDecode (trim0x q.payloadHex) = .ok payload)
    (hcommitment : hexDecode (trim0x q.idCommitmentHex) = .ok idCommitment)
    (hcheck : check listed payload idCommitment = .ok nul) :
    verifyWith parseConfig empty check q = .ok (.accept (some nul)) := by
  have hlist : listed.isEmpty = false := by simpa using hne
  simp only [verifyWith, hlisted, hlist, Bool.false_eq_true, ↓reduceIte, hpayload, hcommitment,
    hcheck]

section Keycard

variable [Crypto]

namespace KeycardAuth

open KeycardAttest

/-- One entry of `trusted_cas`. -/
def trustedCa : Option String → Except String (Bytes 33)
  | none => .error "trusted_cas entries must be hex strings"
  | some s =>
      match hexDecode (trim0x s) with
      | .error e => .error ("trusted_cas hex: " ++ e.message)
      | .ok bytes =>
          if h : bytes.length = 33 then .ok ⟨bytes, h⟩
          else .error "trusted_cas entries must be 33 bytes"

def parseTrustedCas : Option Value → Except String (List (Bytes 33)) :=
  configEntries "trusted_cas"
    "config.trusted_cas (array of 33-byte CA pubkey hex) is required" trustedCa

/-- The nullifier of the card that attests to a commitment, or why it does not. -/
def checkAttestation (trustedCas : List (Bytes 33)) (payload idCommitment : List UInt8) :
    Except String String :=
  match parseAttestation payload with
  | .error e => .error ("attestation parse failed: " ++ e.message)
  | .ok att =>
      match verifyAttestation att trustedCas (boundChallenge idCommitment) with
      | .error e => .error ("attestation verification failed: " ++ e.message)
      | .ok nullifier => .ok (hexEncode nullifier.toList)

/-- `KeycardVector::verify`. -/
def verify : VerifyRequest → Except String Verdict :=
  verifyWith parseTrustedCas "config.trusted_cas is empty — nothing can verify"
    checkAttestation

/-- `KeycardVector`. -/
def keycardVector : AuthVector where
  authType := keycardAttestAuthType
  verify := verify

def verifyAuth [SerdeJson] (argsJson : String) : String :=
  dispatchVerify argsJson [keycardVector]

/-- What an accepted attestation of a commitment shows: a trusted certificate for the
card's key, and the card's signature over the challenge of the commitment. -/
structure Attests (trustedCas : List (Bytes 33)) (payload idCommitment : List UInt8)
    (att : Attestation) : Prop where
  parsed : parseAttestation payload = .ok att
  trusted : ∃ ca t, recoverCa att = .ok ca ∧ t ∈ trustedCas ∧
    t.toList = Crypto.toEncodedPoint ca true
  signed : ∃ ident, Crypto.fromSec1Bytes att.identPub.toList = .ok ident ∧
    Crypto.verifyPrehash ident (Crypto.sha256 (attestDomain ++ idCommitment)).toList
      (lowS att.challengeSig) = true

theorem checkAttestation_ok {trustedCas : List (Bytes 33)} {payload idCommitment : List UInt8}
    {nul : String} (h : checkAttestation trustedCas payload idCommitment = .ok nul) :
    ∃ att, Attests trustedCas payload idCommitment att ∧
      nul = hexEncode (nullifier att.identPub).toList := by
  rw [checkAttestation] at h
  split at h
  · cases h
  · rename_i att hparsed
    split at h
    · cases h
    · rename_i card hverified
      rw [verifyAttestation] at hverified
      obtain ⟨ca, hca, hverified⟩ := bind_eq_ok hverified
      split at hverified
      · cases hverified
      · rename_i htrusted
        obtain ⟨ident, hident, hverified⟩ := bind_eq_ok hverified
        split at hverified
        · rename_i hsigned
          simp only [Bool.not_eq_true, Bool.not_eq_false', List.any_eq_true,
            decide_eq_true_eq] at htrusted
          obtain ⟨t, ht, heq⟩ := htrusted
          cases hverified
          cases h
          exact ⟨att, ⟨hparsed, ⟨ca, t, hca, ht, heq⟩, ident, mapError_eq_ok hident, hsigned⟩,
            rfl⟩
        · cases hverified

end KeycardAuth

end Keycard

namespace EthAuth

theorem recovery_index {sig : List UInt8} (h : sig.length = 65) : 64 < sig.length := by
  omega

section Signer

variable [Crypto]

/-- The EIP-191 `personal_sign` digest of the lowercase hex of a commitment. -/
def eip191Digest (idCommitment : List UInt8) : Bytes 32 :=
  let hexs := utf8 (hexEncode idCommitment)
  Crypto.keccak256
    (utf8 ("\x19Ethereum Signed Message:\n" ++ toString hexs.length) ++ hexs)

/-- The address of the key that a recoverable signature over a commitment was made
with. -/
def recoverSigner (idCommitment sig : List UInt8) : Except String String :=
  if h : sig.length = 65 then
    have hlast := recovery_index h
    let last := sig[64]
    let recidByte := if 27 ≤ last then last - 27 else last
    match Crypto.fromByte recidByte with
    | none => .error "invalid recovery id"
    | some recid => do
        let signature ← (Crypto.fromSlice (sig.take 64)).mapError ("sig: " ++ ·)
        let vk ← (Crypto.recoverFromPrehash (eip191Digest idCommitment).toList signature
          recid).mapError ("recovery failed: " ++ ·)
        let raw := (Crypto.toEncodedPoint vk false).drop 1
        return "0x" ++ hexEncode ((Crypto.keccak256 raw).toList.drop 12)
  else .error ("signature must be 65 bytes, got " ++ toString sig.length)

/-- The address that signed a commitment, if it is listed. -/
def checkSigner (allowlist : List String) (sig idCommitment : List UInt8) :
    Except String String :=
  match recoverSigner idCommitment sig with
  | .error e => .error ("signature verification failed: " ++ e)
  | .ok signer =>
      if allowlist.contains signer then .ok signer
      else .error ("address not allowlisted: " ++ signer)

theorem checkSigner_ok {allowlist : List String} {sig idCommitment : List UInt8}
    {address : String} (h : checkSigner allowlist sig idCommitment = .ok address) :
    recoverSigner idCommitment sig = .ok address ∧ address ∈ allowlist := by
  rw [checkSigner] at h
  split at h
  · cases h
  · rename_i signer hsigner
    split at h
    · rename_i hlisted
      cases h
      exact ⟨hsigner, List.contains_iff_mem.mp hlisted⟩
    · cases h

end Signer

variable [CaseTables]

/-- One entry of the allowlist. -/
def allowed : Option String → Except String String
  | none => .error "allowlist entries must be strings"
  | some s => .ok (toLowercase s)

/-- The allowlist of a configuration, in lowercase. -/
def parseAllowlist : Option Value → Except String (List String) :=
  configEntries "allowlist" "config.allowlist (array of 0x addresses) is required" allowed

/-- The entries of the allowlist in the case they are configured in. -/
theorem mem_parseAllowlist {config : Option Value} {allowlist : List String}
    (h : parseAllowlist config = .ok allowlist) {address : String}
    (hmem : address ∈ allowlist) :
    ∃ items item entry, (config.bind (Value.get · "allowlist")).bind Value.asArray =
      some items ∧ item ∈ items ∧ item.asStr = some entry ∧ toLowercase entry = address := by
  obtain ⟨items, item, hitems, hitem, hread⟩ := mem_configEntries h hmem
  cases hentry : item.asStr with
  | none =>
      rw [hentry] at hread
      cases hread
  | some entry =>
      rw [hentry] at hread
      exact ⟨items, item, entry, hitems, hitem, hentry, Except.ok.inj hread⟩

variable [Crypto]

/-- `EthAllowlistVector::verify`. -/
def verify : VerifyRequest → Except String Verdict :=
  verifyWith parseAllowlist "config.allowlist is empty — nothing can verify" checkSigner

/-- `EthAllowlistVector`. -/
def ethAllowlistVector : AuthVector where
  authType := ethAllowlistAuthType
  verify := verify

def verifyAuth [SerdeJson] (argsJson : String) : String :=
  dispatchVerify argsJson [ethAllowlistVector]

end EthAuth

end RlnGifter
