/-
The auth-vector contract kit: the requests and replies of producers and
verifiers, their JSON shapes, and the dispatch that a vector module's methods
are one line of.
-/
import RlnGifter.Json

namespace RlnGifter

section Results

variable {ε ε' α β : Type} {result : Except ε α}

theorem mapError_eq_ok {f : ε → ε'} {value : α} (h : result.mapError f = .ok value) :
    result = .ok value := by
  cases result with
  | error e => cases h
  | ok v =>
      cases h
      rfl

theorem bind_eq_ok {next : α → Except ε β} {value : β} (h : result >>= next = .ok value) :
    ∃ v, result = .ok v ∧ next v = .ok value := by
  cases result with
  | error e => cases h
  | ok v => exact ⟨v, rfl, h⟩

end Results

/-- `PRODUCE_METHOD`. -/
def produceMethod : String := "produce_auth"

/-- `VERIFY_METHOD`. -/
def verifyMethod : String := "verify_auth"

/-- `KEYCARD_ATTEST_AUTH_TYPE`. -/
def keycardAttestAuthType : String := "keycard-attestation"

/-- `ETH_ALLOWLIST_AUTH_TYPE`. -/
def ethAllowlistAuthType : String := "eth-allowlist"

structure ProduceRequest where
  authType : String
  idCommitmentHex : String
  args : Option Value

structure ProduceReply where
  payloadHex : String

structure VerifyRequest where
  authType : String
  payloadHex : String
  idCommitmentHex : String
  rate : UInt64
  config : Option Value

structure Verdict where
  ok : Bool
  reason : Option String
  nullifier : Option String
deriving DecidableEq

def Verdict.accept (nullifier : Option String) : Verdict :=
  ⟨true, none, nullifier⟩

def Verdict.reject (reason : String) : Verdict :=
  ⟨false, some reason, none⟩

/-- One auth vector; the two roles default to a refusal. -/
structure AuthVector where
  authType : String
  produce : ProduceRequest → Except String ProduceReply := fun _ =>
    .error ("auth vector '" ++ authType ++ "' has no producer on this module")
  verify : VerifyRequest → Except String Verdict := fun _ =>
    .error ("auth vector '" ++ authType ++ "' has no verifier on this module")

/-- An entry that is skipped when it is unset. -/
def optEntry (key : String) : Option Value → List (String × Value)
  | some v => [(key, v)]
  | none => []

def ProduceRequest.entries (req : ProduceRequest) : List (String × Value) :=
  [("auth_type", .string req.authType),
    ("id_commitment_hex", .string req.idCommitmentHex)] ++ optEntry "args" req.args

def ProduceReply.entries (reply : ProduceReply) : List (String × Value) :=
  [("payload_hex", .string reply.payloadHex)]

def VerifyRequest.entries (req : VerifyRequest) : List (String × Value) :=
  [("auth_type", .string req.authType), ("payload_hex", .string req.payloadHex),
    ("id_commitment_hex", .string req.idCommitmentHex), ("rate", .u64 req.rate)] ++
    optEntry "config" req.config

theorem VerifyRequest.nodup_entries (req : VerifyRequest) :
    (req.entries.map Prod.fst).Nodup := by
  cases hconfig : req.config <;> simp [entries, optEntry, hconfig]

def Verdict.entries (v : Verdict) : List (String × Value) :=
  [("ok", .bool v.ok)] ++ optEntry "reason" (v.reason.map .string) ++
    optEntry "nullifier" (v.nullifier.map .string)

def ProduceRequest.names : List String :=
  ["auth_type", "id_commitment_hex", "args"]

def ProduceRequest.read (v : Value) : Option ProduceRequest := do
  let field ← v.structFields names
  let authType ← (← field "auth_type").asStr
  let idCommitmentHex ← (← field "id_commitment_hex").asStr
  return ⟨authType, idCommitmentHex, Value.optValue (field "args")⟩

def ProduceReply.names : List String :=
  ["payload_hex"]

def ProduceReply.read (v : Value) : Option ProduceReply := do
  let field ← v.structFields names
  let payloadHex ← (← field "payload_hex").asStr
  return ⟨payloadHex⟩

def VerifyRequest.names : List String :=
  ["auth_type", "payload_hex", "id_commitment_hex", "rate", "config"]

def VerifyRequest.read (v : Value) : Option VerifyRequest := do
  let field ← v.structFields names
  let authType ← (← field "auth_type").asStr
  let payloadHex ← (← field "payload_hex").asStr
  let idCommitmentHex ← (← field "id_commitment_hex").asStr
  let rate ← match field "rate" with
    | none => some 0
    | some n => n.asU64
  return ⟨authType, payloadHex, idCommitmentHex, rate,
    Value.optValue (field "config")⟩

def Verdict.names : List String :=
  ["ok", "reason", "nullifier"]

def Verdict.read (v : Value) : Option Verdict := do
  let field ← v.structFields names
  let ok ← (← field "ok").asBool
  let reason ← Value.optString (field "reason")
  let nullifier ← Value.optString (field "nullifier")
  return ⟨ok, reason, nullifier⟩

section Dispatch

variable [SerdeJson]

/-- `serde_json::from_value` at a struct: its reader, or the error's text. -/
def fromValue {α : Type} (name : String) (read : Value → Option α) (v : Value) :
    Except String α :=
  match read v with
  | some x => .ok x
  | none => .error (SerdeJson.shapeError name v)

/-- `serde_json::from_str` at a struct. -/
def fromText {α : Type} (name : String) (names : List String)
    (read : Value → Option α) (text : String) : Except String α :=
  match SerdeJson.structFromStr names text with
  | .error e => .error e
  | .ok v => fromValue name read v

def errorReply (msg : String) : String :=
  SerdeJson.toText (.object [("error", .string msg)])

def route (vectors : List AuthVector) (authType : String) :
    Except String AuthVector :=
  match vectors.find? fun v => v.authType = authType with
  | some v => .ok v
  | none => .error ("unknown auth_type '" ++ authType ++ "' on this module")

/-- The reply of a dispatched call: the printed result or the error envelope. -/
def reply (result : Except String (List (String × Value))) : String :=
  match result with
  | .ok entries =>
      match SerdeJson.structText entries with
      | .ok text => text
      | .error e => errorReply e
  | .error e => errorReply e

def dispatchProduce (argsJson : String) (vectors : List AuthVector) : String :=
  reply do
    let req ← (fromText "ProduceRequest" ProduceRequest.names
      ProduceRequest.read argsJson).mapError ("produce_auth args: " ++ ·)
    let vector ← route vectors req.authType
    return (← vector.produce req).entries

def dispatchVerify (argsJson : String) (vectors : List AuthVector) : String :=
  reply do
    let req ← (fromText "VerifyRequest" VerifyRequest.names
      VerifyRequest.read argsJson).mapError ("verify_auth args: " ++ ·)
    let vector ← route vectors req.authType
    return (← vector.verify req).entries

/-- The `{"error"}` envelope of a reply. -/
def envelopeError (reply : Value) : Option String :=
  (reply.get "error").bind Value.asStr

def parseProduceReply (reply : Value) : Except String ProduceReply :=
  match envelopeError reply with
  | some e => .error e
  | none => (fromValue "ProduceReply" ProduceReply.read reply).mapError
      ("produce_auth reply: " ++ ·)

def parseVerdict (reply : Value) : Except String Verdict :=
  match envelopeError reply with
  | some e => .error e
  | none => (fromValue "Verdict" Verdict.read reply).mapError
      ("verify_auth reply: " ++ ·)

/-- A verdict reads back from its fields. -/
theorem parseVerdict_entries (v : Verdict) : parseVerdict (.object v.entries) = .ok v := by
  obtain ⟨ok, reason, nullifier⟩ := v
  have herror : envelopeError (.object (Verdict.mk ok reason nullifier).entries) = none := by
    cases reason <;> cases nullifier <;>
      simp [envelopeError, Verdict.entries, optEntry, Value.object, Value.get_insert]
  have hread : Verdict.read (.object (Verdict.mk ok reason nullifier).entries) =
      some ⟨ok, reason, nullifier⟩ := by
    rw [Verdict.read, Value.structFields_object]
    cases reason <;> cases nullifier <;>
      simp [Verdict.entries, optEntry, Value.object, Value.get_insert, Value.optString]
  rw [parseVerdict, herror, fromValue, hread]
  rfl

end Dispatch

end RlnGifter
