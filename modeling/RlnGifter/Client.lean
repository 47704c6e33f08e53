/-
The gifter client: `request` prepares one request from its arguments, with a
payload that was supplied or that a provider module produces, sends it over the
bridge and reads the response.
-/
import RlnGifter.Hex
import RlnGifter.Lp

namespace RlnGifter

/-- `REQUEST_TIMEOUT_MS`, part of the arguments of the bridge. -/
def requestTimeoutMs : UInt64 := 190000

def requestCallTimeoutMs : Int := 205000
def produceTimeoutMs : Int := 120000

/-- What `request` has read of its arguments and made of them when it sends. -/
structure Prepared where
  gifterPeerId : String
  gifterMultiaddr : String
  idCommitmentHex : String
  requestId : String
  req : RlnGifterRequest

section Prepare

variable [SerdeJson] [CaseTables]

/-- A string field of the arguments, empty when it is left out or no string. -/
def stringArg (a : Value) (key : String) : String :=
  ((a.get key).bind Value.asStr).getD ""

/-- The payload a provider module produces. -/
def producePayload (who : Caller) (authProvider : String) (prodReq : ProduceRequest) :
    Prog (Except String (List UInt8)) :=
  match SerdeJson.structText prodReq.entries with
  | .error e => return .error ("produce request: " ++ e)
  | .ok prodJson => do
      match ← callModuleJson who authProvider produceMethod (.array [.string prodJson])
          produceTimeoutMs with
      | .error e => return .error e
      | .ok reply =>
          match parseProduceReply reply with
          | .error e => return .error ("auth provider " ++ authProvider ++ ": " ++ e)
          | .ok reply =>
              return (hexDecode (trim0x reply.payloadHex)).mapError
                fun e => "auth provider payload hex: " ++ e.message

/-- The `authentication_payload` of a request: none without a type, the one that was
supplied, or the one of a provider. -/
def authPayload (who : Caller) (a : Value) (idCommitmentHex : String) :
    Prog (Except String (List UInt8)) := do
  let authTypeReq := stringArg a "authType"
  let authPayloadHex := stringArg a "authPayload"
  let authProvider := stringArg a "authProvider"
  if authPayloadHex ≠ "" ∧ authProvider ≠ "" then
    return .error "authPayload and authProvider are mutually exclusive"
  else if authTypeReq = "" then
    if authPayloadHex ≠ "" ∨ authProvider ≠ "" then
      return .error "authPayload/authProvider need an explicit authType"
    else return .ok []
  else if authPayloadHex ≠ "" then
    return (hexDecode (trim0x authPayloadHex)).mapError
      fun e => "authPayload hex: " ++ e.message
  else if authProvider ≠ "" then
    producePayload who authProvider ⟨authTypeReq, idCommitmentHex, a.get "authArgs"⟩
  else return .error ("authType '" ++ authTypeReq ++ "' needs authPayload or authProvider")

/-- The id of a request, from the first sixteen digits of its commitment. -/
def requestIdOf (idCommitmentHex : String) : String :=
  "gift-" ++ String.ofList (idCommitmentHex.toList.take 16)

/-- The request that is sent. -/
def gifterRequest (a : Value) (idCommitmentHex : String)
    (idCommitment authPayload : List UInt8) : RlnGifterRequest :=
  let rate := ((a.get "rate").bind Value.asU64).getD 0
  { requestId := requestIdOf idCommitmentHex
    authenticationType := utf8 (stringArg a "authType")
    authenticationPayload := authPayload
    identityCommitment := idCommitment
    rateLimit := if 0 < rate then some rate else none }

/-- `request` up to the call of the bridge. -/
def prepareRequest (who : Caller) (argsJson : String) : Prog (Except String Prepared) :=
  match SerdeJson.fromStr argsJson with
  | .error e => return .error ("request args: " ++ e)
  | .ok a =>
      match (a.get "gifterPeerId").bind Value.asStr with
      | none => return .error "missing gifterPeerId"
      | some gifterPeerId =>
          match (a.get "gifterMultiaddr").bind Value.asStr with
          | none => return .error "missing gifterMultiaddr"
          | some gifterMultiaddr => do
              let providedCommitment := stringArg a "identityCommitment"
              if providedCommitment = "" then
                return .error "request needs identityCommitment"
              else
                let idCommitmentHex := toLowercase (trim0x providedCommitment)
                match hexDecode idCommitmentHex with
                | .error e => return .error ("id_commitment hex: " ++ e.message)
                | .ok idCommitment =>
                    match ← authPayload who a idCommitmentHex with
                    | .error e => return .error e
                    | .ok authPayload =>
                        return .ok ⟨gifterPeerId, gifterMultiaddr, idCommitmentHex,
                          requestIdOf idCommitmentHex,
                          gifterRequest a idCommitmentHex idCommitment authPayload⟩

end Prepare

/-- The membership `request` returns. -/
def membershipReply (idCommitmentHex : String) (success : MembershipAllocationSuccess) :
    Value :=
  let txHash := hexEncode success.transactionHash
  let out := Value.object [("leaf_index", .u64 success.leafIndex),
    ("id_commitment", .string idCommitmentHex), ("auth_success", .bool true),
    ("identity_adopted", .bool false)]
  let out := if txHash ≠ "" then out.insert "tx_hash" (.string txHash) else out
  match success.configAccountId with
  | some cfg => out.insert "config_account" (.string cfg)
  | none => out

/-- What `request` makes of the gifter's response. -/
def readResponse (p : Prepared) (resp : RlnGifterResponse) : Except String Value :=
  if resp.requestId ≠ p.requestId then .error "gifter response requestId mismatch"
  else if !resp.authSuccess then
    .error ((resp.error.orElse fun _ =>
      resp.failure.map MembershipAllocationFailure.errorMessage).getD
        "gifter authentication failed")
  else
    match resp.success with
    | none =>
        .error (((resp.failure.map MembershipAllocationFailure.errorMessage).orElse
          fun _ => resp.error).getD "gifter returned no membership")
    | some success => .ok (membershipReply p.idCommitmentHex success)

section Send

variable [SerdeJson] [Base64]

/-- The arguments of the bridge for one request. -/
def protocolRequestArgs (p : Prepared) : Value :=
  .array [.string (SerdeJson.toText (.object [
    ("peerId", .string p.gifterPeerId),
    ("multiaddrs", .array [.string p.gifterMultiaddr]),
    ("proto", .string rlnGifterCodec),
    ("requestB64", .string (b64 p.req.encode)),
    ("timeoutMs", .u64 requestTimeoutMs)]))]

/-- The reply of the bridge, read as a response. -/
def readReply (p : Prepared) (pr : Value) : Except String Value :=
  match (pr.get "responseB64").bind Value.asStr with
  | none => .error ("protocolRequest: no responseB64 in " ++ SerdeJson.toText pr)
  | some respB64 => do
      let resp ← RlnGifterResponse.decode (← b64Decode respB64)
      readResponse p resp

/-- One request and its response over the bridge. -/
def sendRequest (who : Caller) (p : Prepared) : Prog (Except String Value) := do
  match ← callLibp2p who "protocolRequest" (protocolRequestArgs p) requestCallTimeoutMs with
  | .error e => return .error e
  | .ok pr => return readReply p pr

variable [CaseTables]

def request (who : Caller) (argsJson : String) : Prog (Except String Value) := do
  match ← prepareRequest who argsJson with
  | .error e => return .error e
  | .ok p => sendRequest who p

end Send

end RlnGifter
