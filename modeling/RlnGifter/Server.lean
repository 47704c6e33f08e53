/-
The gifter node: `serve` installs a configuration on the owner thread, and
`handle_request` authenticates one request through the configured vector's
verifier module and registers the membership on chain.
-/
import RlnGifter.Hex
import RlnGifter.Lp

namespace RlnGifter

def registerTimeoutMs : Int := 190000
def getMembershipTimeoutMs : Int := 30000
def mountTimeoutMs : Int := 30000
def authVerifyTimeoutMs : Int := 30000
def defaultMaxRate : UInt64 := 100

/-- `CONFIRM_BUDGET`, in seconds. -/
def confirmBudget : Nat := 150

/-- `CONFIRM_POLL`, in seconds. -/
def confirmPoll : Nat := 2

section Serve

variable [SerdeJson]

/-- The loop of `serve` over the entries of `authVerifiers`. -/
def openVerifiers :
    List (String × Value) → Prog (Except String (List (String × String × Option Value)))
  | [] => return .ok []
  | (atype, v) :: rest => do
      let verifier := ((v.get "module").bind Value.asStr).getD ""
      if verifier = "" then
        return .error ("authVerifiers['" ++ atype ++ "'] needs a module")
      else
        match ← ensureClient .owner verifier with
        | .error e => return .error ("authVerifiers['" ++ atype ++ "']: " ++ e)
        | .ok () =>
            match ← openVerifiers rest with
            | .error e => return .error e
            | .ok verifiers => return .ok ((atype, verifier, v.get "config") :: verifiers)

/-- The `authVerifiers` of the arguments: left out or null, an object, or an
error. -/
def readVerifiers (a : Value) :
    Prog (Except String (List (String × String × Option Value))) :=
  match (a.get "authVerifiers").map Value.view with
  | none | some .null => return .ok []
  | some (.object entries) => openVerifiers entries
  | some _ => return .error (
      "authVerifiers must be an object of \x7btype: \x7bmodule, config?\x7d\x7d")

/-- Mount the protocol and start the worker, once. -/
def mount : Prog (Except String Value) := do
  let mounted : Value := .object [("mounted", .bool true)]
  if ← perform .swapServing then return .ok mounted
  else
    match ← callLibp2p .owner "mountProtocol" (.array [.string rlnGifterCodec])
        mountTimeoutMs with
    | .error e =>
        perform .clearServing
        return .error ("mountProtocol: " ++ e)
    | .ok _ =>
        perform .spawnWorker
        return .ok mounted

def serve (argsJson : String) : Prog (Except String Value) :=
  match SerdeJson.fromStr argsJson with
  | .error e => return .error ("serve args: " ++ e)
  | .ok a =>
      match (a.get "config").bind Value.asStr with
      | none => return .error "missing config"
      | some config =>
          match (a.get "wallet").bind Value.asStr with
          | none => return .error "missing wallet"
          | some wallet => do
              let maxRateLimit :=
                ((a.get "maxRateLimit").bind Value.asU64).getD defaultMaxRate
              let nullifiersPath :=
                ((a.get "consumedNullifiersPath").bind Value.asStr).getD ""
              match ← readVerifiers a with
              | .error e => return .error e
              | .ok authVerifiers =>
                  let _ ← perform (.merge nullifiersPath)
                  perform (.storeServer
                    ⟨config, wallet, authVerifiers, nullifiersPath, maxRateLimit⟩)
                  mount

end Serve

def failureResponse (requestId : String) (authSuccess : Bool) (message : String) :
    RlnGifterResponse where
  requestId := requestId
  authSuccess := authSuccess
  error := some message
  failure := some ⟨message⟩

/-- The rate that is judged and registered: the requested one, capped. -/
def effectiveRate (cfg : ServerCfg) (req : RlnGifterRequest) : UInt64 :=
  let rate := req.rateLimit.getD defaultMaxRate
  if cfg.maxRateLimit < rate then cfg.maxRateLimit else rate

/-- The request `handle_request` sends to a verifier. -/
def verifyRequest (req : RlnGifterRequest) (authType : String) (rate : UInt64)
    (verifierConfig : Option Value) : VerifyRequest where
  authType := authType
  payloadHex := hexEncode req.authenticationPayload
  idCommitmentHex := hexEncode req.identityCommitment
  rate := rate
  config := verifierConfig

section Register

variable [SerdeJson]

inductive RegisterError where
  | notSubmitted (m : String)
  | unconfirmed (m : String)
deriving DecidableEq

def RegisterError.message : RegisterError → String
  | .notSubmitted m => m
  | .unconfirmed m => m

/-- The leaf of a confirmed membership. -/
def confirmedLeaf (reply : Value) : Option UInt64 :=
  if (reply.get "registered").bind Value.asBool ≠ some true then none
  else (reply.get "leaf_index").bind Value.asU64

/-- The transaction hash that a reply of `register_member` nests, empty when
there is none. -/
def txHashBytes (reply : Value) : List UInt8 :=
  match (reply.get "tx_result").bind Value.asStr with
  | none => []
  | some txResult =>
      match SerdeJson.fromStr txResult with
      | .error _ => []
      | .ok inner =>
          match (inner.get "tx_hash").bind Value.asStr with
          | none => []
          | some txh => ((hexDecode (trim0x txh)).toOption).getD []

def unconfirmedMessage (txHash : List UInt8) : String :=
  "registration submitted (tx " ++ hexEncode txHash ++ ") but not on chain within " ++
    toString confirmBudget ++ "s; it may still land"

/-- The success a confirmed leaf is answered with. -/
def membership (cfg : ServerCfg) (txHash : List UInt8) (leafIndex : UInt64) :
    MembershipAllocationSuccess where
  leafIndex := leafIndex
  transactionHash := txHash
  configAccountId := some cfg.config

/-- One turn of the confirmation loop; `again` is the rest of it. -/
def confirmTurn (cfg : ServerCfg) (idcHex : String) (txHash : List UInt8)
    (again : Prog (Except RegisterError MembershipAllocationSuccess)) :
    Prog (Except RegisterError MembershipAllocationSuccess) := do
  let m ← callModuleJson .worker rlnModule "get_membership"
    (.array [.string cfg.config, .string idcHex]) getMembershipTimeoutMs
  match m.toOption.bind confirmedLeaf with
  | some leafIndex => return .ok (membership cfg txHash leafIndex)
  | none =>
      if ← perform .pastDeadline then
        return .error (.unconfirmed (unconfirmedMessage txHash))
      else again

/-- The confirmation loop, with room for so many more pauses before the
deadline.  Each lasts at least `CONFIRM_POLL`, so without room for one the clock
is past the deadline. -/
def confirm (cfg : ServerCfg) (idcHex : String) (txHash : List UInt8) :
    Nat → Prog (Except RegisterError MembershipAllocationSuccess)
  | 0 => confirmTurn cfg idcHex txHash
      (return .error (.unconfirmed (unconfirmedMessage txHash)))
  | pauses + 1 => confirmTurn cfg idcHex txHash (confirm cfg idcHex txHash pauses)

def register (cfg : ServerCfg) (idCommitment : List UInt8) (rate : UInt64) :
    Prog (Except RegisterError MembershipAllocationSuccess) := do
  let idcHex := hexEncode idCommitment
  match ← callModuleJson .worker rlnModule "register_member"
      (.array [.string cfg.config, .string cfg.wallet, .string idcHex, .u64 rate])
      registerTimeoutMs with
  | .error e => return .error (.notSubmitted e)
  | .ok reply =>
      confirm cfg idcHex (txHashBytes reply) (confirmBudget / confirmPoll)

end Register

/-- `append_nullifier`. -/
def appendNullifier (path nullifier : String) : Prog Unit :=
  if path = "" then return ()
  else do
    let _ ← perform (.append path nullifier)

section Handle

variable [SerdeJson] [CaseTables]

/-- A nullifier as the store knows it. -/
def normalize (nul : String) : String :=
  toLowercase (trim nul)

/-- Whether a normalised nullifier may enter the store. -/
def wellFormed (nul : String) : Bool :=
  nul ≠ "" && nul.toList.all fun c => !(isWhitespace c || isControl c)

/-- The key a nullifier has in the store that all vectors share. -/
def replayKey (authType nul : String) : String :=
  authType ++ ":" ++ nul

/-- What an accepted verdict's nullifier leads to. -/
def reserveVerdict (req : RlnGifterRequest) (authType verifier : String) :
    Option String → Prog (Except RlnGifterResponse (Option String))
  | none => return .ok none
  | some nul => do
      let nul := normalize nul
      if !wellFormed nul then
        return .error (failureResponse req.requestId false
          ("auth verifier " ++ verifier ++ ": malformed nullifier"))
      else
        let nul := replayKey authType nul
        if ← perform (.reserve nul) then
          return .error (failureResponse req.requestId false
            ("credential already used: " ++ nul))
        else return .ok (some nul)

/-- What a verifier's reply leads to. -/
def judge (req : RlnGifterRequest) (authType verifier : String) (reply : Value) :
    Prog (Except RlnGifterResponse (Option String)) :=
  match parseVerdict reply with
  | .error e =>
      return .error (failureResponse req.requestId false
        ("auth verifier " ++ verifier ++ ": " ++ e))
  | .ok verdict =>
      if !verdict.ok then
        return .error (failureResponse req.requestId false
          (verdict.reason.getD "verifier rejected the request"))
      else reserveVerdict req authType verifier verdict.nullifier

/-- The authentication part of `handle_request`: the response it ends with, or
the key it reserved, if any. -/
def authenticate (cfg : ServerCfg) (req : RlnGifterRequest) (authType : String)
    (rate : UInt64) : Prog (Except RlnGifterResponse (Option String)) := do
  if cfg.authVerifiers.isEmpty then return .ok none
  else
    match lookupField authType cfg.authVerifiers with
    | none =>
        return .error (failureResponse req.requestId false
          ("unsupported authentication_type: '" ++ authType ++ "'"))
    | some (verifier, verifierConfig) =>
        let verifyReq := verifyRequest req authType rate verifierConfig
        match SerdeJson.structText verifyReq.entries with
        | .error e =>
            return .error (failureResponse req.requestId false ("verify request: " ++ e))
        | .ok verifyJson =>
            match ← callModuleJson .worker verifier verifyMethod
                (.array [.string verifyJson]) authVerifyTimeoutMs with
            | .error e =>
                return .error (failureResponse req.requestId false
                  ("auth verifier " ++ verifier ++ ": " ++ e))
            | .ok reply => judge req authType verifier reply

/-- The end of `handle_request`: keep the reservation or roll it back, and
answer. -/
def settle (cfg : ServerCfg) (req : RlnGifterRequest) (key : Option String) :
    Except RegisterError MembershipAllocationSuccess → Prog RlnGifterResponse
  | .ok success => do
      match key with
      | some nul => appendNullifier cfg.nullifiersPath nul
      | none => pure ()
      return {
        requestId := req.requestId
        authSuccess := true
        success := some success }
  | .error e => do
      match key, e with
      | some nul, .notSubmitted _ => perform (.release nul)
      | some nul, .unconfirmed _ => appendNullifier cfg.nullifiersPath nul
      | none, _ => pure ()
      return {
        requestId := req.requestId
        authSuccess := true
        failure := some ⟨e.message⟩ }

def handleRequest (buf : List UInt8) : Prog RlnGifterResponse :=
  match RlnGifterRequest.decode buf with
  | .error e => return failureResponse "N/A" false ("decode error: " ++ e)
  | .ok req =>
      if req.identityCommitment.length ≠ 32 then
        return failureResponse req.requestId true "identity_commitment must be 32 bytes"
      else do
        match ← perform .lockServer with
        | none => return failureResponse req.requestId true "gifter not configured"
        | some cfg =>
            let authType := fromUtf8Lossy req.authenticationType
            let rate := effectiveRate cfg req
            match ← authenticate cfg req authType rate with
            | .error response => return response
            | .ok key =>
                let registered ← register cfg req.identityCommitment rate
                settle cfg req key registered

end Handle

end RlnGifter
