/-
The client and the gifter, composed through the codec: what the client sends is
what its producer and the gifter's verifier see, and the outcome it returns is the
gifter's.
-/
import RlnGifter.Alone
import RlnGifter.Authorisation
import RlnGifter.Base64
import RlnGifter.Client
import RlnGifter.Platform

namespace RlnGifter

open Program

section Prepare

variable [SerdeJson] [CaseTables]

/-- How a prepared request came from the arguments: the commitment lowercased and
decoded, the payload as it was supplied or produced. -/
structure PreparedFrom (who : Caller) (argsJson : String) (prepared : Trace) (a : Value)
    (p : Prepared) : Prop where
  parsed : SerdeJson.fromStr argsJson = .ok a
  commitmentHex : p.idCommitmentHex = toLowercase (trim0x (stringArg a "identityCommitment"))
  commitment : hexDecode p.idCommitmentHex = .ok p.req.identityCommitment
  requestId : p.requestId = p.req.requestId
  payload : (authPayload who a p.idCommitmentHex).After prepared
    (.ret (.ok p.req.authenticationPayload))
  req : p.req = gifterRequest a p.idCommitmentHex p.req.identityCommitment
    p.req.authenticationPayload

/-- The commitment is sent in the spelling the producer saw. -/
theorem PreparedFrom.hexEncode_commitment {who : Caller} {argsJson : String}
    {prepared : Trace} {a : Value} {p : Prepared}
    (h : PreparedFrom who argsJson prepared a p) :
    hexEncode p.req.identityCommitment = p.idCommitmentHex := by
  have hdecode := h.commitment
  rw [h.commitmentHex] at hdecode
  rw [h.commitmentHex]
  exact hexEncode_of_hexDecode_toLowercase hdecode

theorem prepareRequest_after {who : Caller} {argsJson : String} {prepared : Trace}
    {p : Prepared} (h : (prepareRequest who argsJson).After prepared (.ret (.ok p))) :
    ∃ a, PreparedFrom who argsJson prepared a p := by
  rw [prepareRequest] at h
  split at h
  · cases (ret_after.mp h).2
  · rename_i a ha
    split at h
    · cases (ret_after.mp h).2
    · split at h
      · cases (ret_after.mp h).2
      · simp only at h
        split at h
        · cases (ret_after.mp h).2
        · split at h
          · cases (ret_after.mp h).2
          · rename_i idCommitment hdecode
            obtain ⟨first, last, result, rfl, hpayload, hlast⟩ := bind_after_ret h
            cases result with
            | error e => cases (ret_after.mp hlast).2
            | ok payload =>
                obtain ⟨rfl, heq⟩ := ret_after.mp hlast
                cases heq
                rw [List.append_nil]
                exact ⟨a, ha, rfl, hdecode, rfl, hpayload, rfl⟩

/-- Where the payload of a request came from: there is none without a type, it was
supplied, or the provider produced it for this type and commitment. -/
inductive PayloadFrom (who : Caller) (a : Value) (idCommitmentHex : String) :
    Trace → List UInt8 → Prop where
  | none (htype : stringArg a "authType" = "") : PayloadFrom who a idCommitmentHex [] []
  | supplied (htype : stringArg a "authType" ≠ "") (hgiven : stringArg a "authPayload" ≠ "")
      (payload : List UInt8)
      (hdecode : hexDecode (trim0x (stringArg a "authPayload")) = .ok payload) :
      PayloadFrom who a idCommitmentHex [] payload
  | produced (htype : stringArg a "authType" ≠ "") (prodReq : ProduceRequest)
      (hauthType : prodReq.authType = stringArg a "authType")
      (hcommitment : prodReq.idCommitmentHex = idCommitmentHex)
      (hargs : prodReq.args = a.get "authArgs") (prodJson : String)
      (hjson : SerdeJson.structText prodReq.entries = .ok prodJson) (produced : Trace)
      (reply : Value) (hcall : (callModuleJson who (stringArg a "authProvider") produceMethod
        (.array [.string prodJson]) produceTimeoutMs).After produced (.ret (.ok reply)))
      (r : ProduceReply) (hreply : parseProduceReply reply = .ok r) (payload : List UInt8)
      (hdecode : hexDecode (trim0x r.payloadHex) = .ok payload) :
      PayloadFrom who a idCommitmentHex produced payload

omit [CaseTables] in
theorem PayloadFrom.untyped {who : Caller} {a : Value} {idCommitmentHex : String}
    {prepared : Trace} {payload : List UInt8}
    (h : PayloadFrom who a idCommitmentHex prepared payload)
    (hnone : stringArg a "authType" = "") : payload = [] ∧ prepared = [] := by
  cases h with
  | none => exact ⟨rfl, rfl⟩
  | supplied hsome => exact absurd hnone hsome
  | produced hsome => exact absurd hnone hsome

omit [CaseTables] in
theorem producePayload_after {who : Caller} {authProvider : String} {prodReq : ProduceRequest}
    {produced : Trace} {payload : List UInt8}
    (h : (producePayload who authProvider prodReq).After produced (.ret (.ok payload))) :
    ∃ prodJson reply r, SerdeJson.structText prodReq.entries = .ok prodJson ∧
      (callModuleJson who authProvider produceMethod (.array [.string prodJson])
        produceTimeoutMs).After produced (.ret (.ok reply)) ∧
      parseProduceReply reply = .ok r ∧ hexDecode (trim0x r.payloadHex) = .ok payload := by
  rw [producePayload] at h
  split at h
  · cases (ret_after.mp h).2
  · rename_i prodJson hjson
    obtain ⟨first, last, result, rfl, hcall, hlast⟩ := bind_after_ret h
    cases result with
    | error e => cases (ret_after.mp hlast).2
    | ok reply =>
        simp only at hlast
        split at hlast
        · cases (ret_after.mp hlast).2
        · rename_i r hreply
          obtain ⟨rfl, heq⟩ := ret_after.mp hlast
          rw [List.append_nil]
          exact ⟨prodJson, reply, r, hjson, hcall, hreply,
            mapError_eq_ok (Program.ret.inj heq).symm⟩

omit [CaseTables] in
theorem authPayload_after {who : Caller} {a : Value} {idCommitmentHex : String}
    {prepared : Trace} {payload : List UInt8}
    (h : (authPayload who a idCommitmentHex).After prepared (.ret (.ok payload))) :
    PayloadFrom who a idCommitmentHex prepared payload := by
  rw [authPayload] at h
  split at h
  · cases (ret_after.mp h).2
  · split at h
    · rename_i htype
      split at h
      · cases (ret_after.mp h).2
      · obtain ⟨rfl, heq⟩ := ret_after.mp h
        cases heq
        exact .none htype
    · rename_i htype
      split at h
      · rename_i hgiven
        obtain ⟨rfl, heq⟩ := ret_after.mp h
        exact .supplied htype hgiven payload (mapError_eq_ok (Program.ret.inj heq).symm)
      · split at h
        · obtain ⟨prodJson, reply, r, hjson, hcall, hreply, hdecode⟩ := producePayload_after h
          exact .produced htype _ rfl rfl rfl prodJson hjson prepared reply hcall r hreply
            payload hdecode
        · cases (ret_after.mp h).2

end Prepare

section Verify

theorem utf8_eq_nil {s : String} : utf8 s = [] ↔ s = "" := by
  constructor
  · intro h
    exact utf8_injective (h.trans rfl)
  · rintro rfl
    rfl

variable [SerdeJson] [CaseTables]

/-- The rate that is asked for: what the arguments say, the default when that is
zero or not there. -/
def requestedRate (a : Value) : Nat :=
  let rate := ((a.get "rate").bind Value.asU64).getD 0
  if rate = 0 then defaultMaxRate.toNat else rate.toNat

omit [SerdeJson] [CaseTables] in
theorem rateLimit_gifterRequest (a : Value) (idCommitmentHex : String)
    (idCommitment payload : List UInt8) :
    ((gifterRequest a idCommitmentHex idCommitment payload).rateLimit.getD
      defaultMaxRate).toNat = requestedRate a := by
  rw [requestedRate, gifterRequest]
  generalize ((a.get "rate").bind Value.asU64).getD 0 = rate
  by_cases hrate : rate = 0
  · subst hrate
    rfl
  · have hpos : 0 < rate := UInt64.pos_iff_ne_zero.mpr hrate
    simp [hrate, hpos]

/-- The verifier's request says what the producer's said: the type, the commitment
in the same spelling, the bytes of the payload, and the capped rate. -/
structure SaysTheSame (a : Value) (p : Prepared) (cfg : ServerCfg)
    (verifierConfig : Option Value) (q : VerifyRequest) : Prop where
  authType : q.authType = stringArg a "authType"
  commitment : q.idCommitmentHex = p.idCommitmentHex
  payload : hexDecode q.payloadHex = .ok p.req.authenticationPayload
  rate : q.rate.toNat = min (requestedRate a) cfg.maxRateLimit.toNat
  config : q.config = verifierConfig

/-- A request taken up under a configuration that knows its type asks the verifier
next. -/
theorem handleRequest_asks {buf : List UInt8} {req : RlnGifterRequest} {cfg : ServerCfg}
    {verifier verifyJson : String} {verifierConfig : Option Value} (hreq : Admitted buf req)
    (hlookup : lookupField (authTypeOf req) cfg.authVerifiers = some (verifier, verifierConfig))
    (htext : SerdeJson.structText (verifyRequest req (authTypeOf req) (effectiveRate cfg req)
      verifierConfig).entries = .ok verifyJson) :
    ∃ rest : Except String Value → Prog RlnGifterResponse,
      (handleRequest buf).After [⟨.lockServer, some cfg⟩]
        (callModuleJson .worker verifier verifyMethod (.array [.string verifyJson])
          authVerifyTimeoutMs >>= rest) := by
  have hopen : cfg.authVerifiers.isEmpty = false := by
    cases hverifiers : cfg.authVerifiers with
    | nil =>
        rw [hverifiers] at hlookup
        cases hlookup
    | cons entry rest => rfl
  have hauth : ∀ next : Except RlnGifterResponse (Option String) → Prog RlnGifterResponse,
      ∃ rest, authenticateRequest cfg req >>= next =
        callModuleJson .worker verifier verifyMethod (.array [.string verifyJson])
          authVerifyTimeoutMs >>= rest := by
    intro next
    simp only [authenticateRequest, authenticate, hopen, Bool.false_eq_true, ↓reduceIte,
      hlookup, htext]
    exact ⟨_, bind_bind _ _ _⟩
  obtain ⟨next, hnext⟩ : ∃ next, (handleRequest buf).After [⟨.lockServer, some cfg⟩]
      (authenticateRequest cfg req >>= next) := by
    rw [handleRequest]
    simp only [hreq.decoded, hreq.length, ne_eq, not_true_eq_false, ↓reduceIte, perform_bind,
      op_after_cons, after_nil]
    exact ⟨_, some cfg, rfl, rfl⟩
  obtain ⟨rest, hrest⟩ := hauth next
  exact ⟨rest, hrest ▸ hnext⟩

/-- Producer and verifier see the same request. -/
theorem producer_verifier_agree {who : Caller} {argsJson : String} {prepared : Trace}
    {p : Prepared} (hprepared : (prepareRequest who argsJson).After prepared (.ret (.ok p)))
    (hfits : p.req.encode.length < 2 ^ 64) :
    ∃ a, SerdeJson.fromStr argsJson = .ok a ∧
      PayloadFrom who a p.idCommitmentHex prepared p.req.authenticationPayload ∧
      (p.req.authenticationType = [] ↔ stringArg a "authType" = "") ∧
      (stringArg a "authType" = "" → p.req.authenticationPayload = [] ∧ prepared = []) ∧
      ∀ cfg verifier verifierConfig, p.req.identityCommitment.length = 32 →
        lookupField (stringArg a "authType") cfg.authVerifiers =
          some (verifier, verifierConfig) →
        ∃ q verifyJson rest, SaysTheSame a p cfg verifierConfig q ∧
          SerdeJson.structText q.entries = .ok verifyJson ∧
          (handleRequest p.req.encode).After [⟨.lockServer, some cfg⟩]
            (callModuleJson .worker verifier verifyMethod (.array [.string verifyJson])
              authVerifyTimeoutMs >>= rest) := by
  obtain ⟨a, hfrom⟩ := prepareRequest_after hprepared
  have hpayload := authPayload_after hfrom.payload
  have htype : p.req.authenticationType = utf8 (stringArg a "authType") := by
    rw [hfrom.req]
    rfl
  refine ⟨a, hfrom.parsed, hpayload, ?_, ?_, ?_⟩
  · rw [htype, utf8_eq_nil]
  · intro hnone
    exact hpayload.untyped hnone
  · intro cfg verifier verifierConfig hlength hlookup
    have hreq : Admitted p.req.encode p.req :=
      ⟨RlnGifterRequest.decode_encode_of_fits p.req hfits, hlength⟩
    have hauthType : authTypeOf p.req = stringArg a "authType" := by
      rw [authTypeOf, htype, fromUtf8Lossy_utf8]
    obtain ⟨verifyJson, htext, -⟩ := SerdeJson.structText_reads _
      (verifyRequest p.req (authTypeOf p.req) (effectiveRate cfg p.req)
        verifierConfig).nodup_entries
    obtain ⟨rest, hasks⟩ := handleRequest_asks hreq (by rw [hauthType]; exact hlookup) htext
    have hrate : (effectiveRate cfg p.req).toNat =
        min (requestedRate a) cfg.maxRateLimit.toNat := by
      rw [effectiveRate_eq_min, hfrom.req, rateLimit_gifterRequest]
    exact ⟨verifyRequest p.req (authTypeOf p.req) (effectiveRate cfg p.req) verifierConfig,
      verifyJson, rest, ⟨hauthType, hfrom.hexEncode_commitment, hexDecode_hexEncode _, hrate,
        rfl⟩, htext, hasks⟩

end Verify

section Response

variable [SerdeJson] [CaseTables] {buf : List UInt8} {req : RlnGifterRequest} {trace : Trace}
  {resp : RlnGifterResponse}

theorem authenticate_error {cfg : ServerCfg} {asked : Trace}
    (h : (authenticateRequest cfg req).After asked (.ret (.error resp))) :
    ∃ msg, resp = failureResponse req.requestId false msg := by
  have hrun := authenticate_after h
  generalize hq : (Program.ret (.error resp) :
    Prog (Except RlnGifterResponse (Option String))) = q at hrun
  cases hrun with
  | opened => cases hq
  | asking => cases hq
  | refused _ _ _ msg =>
      cases hq
      exact ⟨msg, rfl⟩
  | accepted => cases hq
  | reserving => cases hq
  | used =>
      cases hq
      exact ⟨_, rfl⟩
  | reserved => cases hq

/-- The gifter's response when `register` returned. -/
theorem RegisterReturned.response {r : Except RegisterError MembershipAllocationSuccess}
    (hr : RegisterReturned buf trace r) (hdecode : RlnGifterRequest.decode buf = .ok req)
    (h : (handleRequest buf).After trace (.ret resp)) : resp = settleResponse req r := by
  obtain ⟨req', cfg, asked, called, last, key, hreq, -, -, -, hsettle⟩ :=
    hr.settling (handleRequest_after h)
  obtain rfl := Except.ok.inj (hreq.decoded.symm.trans hdecode)
  rcases settle_after hsettle with ⟨-, ⟨-, hret⟩ | ⟨e, next, -, hop⟩⟩ | ⟨e, answer, -, -, hret⟩
  · exact Program.ret.inj hret
  · cases hop
  · exact Program.ret.inj hret

/-- In every other case it is a failure, under the request's own id. -/
theorem handle_failure (hnot : ¬ ∃ r, RegisterReturned buf trace r)
    (hdecode : RlnGifterRequest.decode buf = .ok req)
    (h : (handleRequest buf).After trace (.ret resp)) :
    ∃ authSuccess msg, resp = failureResponse req.requestId authSuccess msg := by
  have hrun := handleRequest_after h
  generalize hq : (Program.ret resp : Prog RlnGifterResponse) = q at hrun
  cases hrun with
  | malformed e herror =>
      rw [hdecode] at herror
      cases herror
  | missized req' hreq' =>
      obtain rfl := Except.ok.inj (hreq'.symm.trans hdecode)
      exact ⟨_, _, Program.ret.inj hq⟩
  | starting => cases hq
  | unconfigured req' hreq' =>
      obtain rfl := Except.ok.inj (hreq'.decoded.symm.trans hdecode)
      exact ⟨_, _, Program.ret.inj hq⟩
  | authenticating => cases hq
  | refused req' hreq' cfg asked response hauth =>
      obtain rfl := Except.ok.inj (hreq'.decoded.symm.trans hdecode)
      obtain ⟨msg, rfl⟩ := authenticate_error hauth
      exact ⟨_, _, Program.ret.inj hq⟩
  | registering => cases hq
  | settling req' hreq' cfg asked key hauth called r hregister last =>
      exact absurd ⟨r, req', cfg, asked, called, last, key, hreq', rfl, hauth, hregister⟩ hnot

omit [SerdeJson] [CaseTables] in
/-- The client reads from each response what the gifter meant by it. -/
theorem readResponse_settle {p : Prepared} (hid : p.requestId = req.requestId)
    (r : Except RegisterError MembershipAllocationSuccess) :
    readResponse p (settleResponse req r) =
      match r with
      | .ok success => .ok (membershipReply p.idCommitmentHex success)
      | .error e => .error e.message := by
  cases r <;> simp [readResponse, settleResponse, hid]

omit [SerdeJson] [CaseTables] in
theorem readResponse_failure {p : Prepared} (hid : p.requestId = req.requestId)
    (authSuccess : Bool) (msg : String) :
    readResponse p (failureResponse req.requestId authSuccess msg) = .error msg := by
  cases authSuccess <;> simp [readResponse, failureResponse, hid]

/-- The membership the client returns is the one the gifter registered: its leaf was
confirmed for this configuration and commitment, the commitment is the registered
one, the rest is the gifter's. -/
structure ReturnsMembership (p : Prepared) (trace : Trace) (cfg : ServerCfg)
    (success : MembershipAllocationSuccess) (v : Value) : Prop where
  read : ⟨.lockServer, some cfg⟩ ∈ trace
  leaf : v.get "leaf_index" = some (.u64 success.leafIndex)
  confirmed : ∃ poll reply, ⟨membershipCall cfg p.req.identityCommitment, poll⟩ ∈ trace ∧
    moduleResult "get_membership" poll.seen = .ok reply ∧
    (reply.get "registered").bind Value.asBool = some true ∧
    (reply.get "leaf_index").bind Value.asU64 = some success.leafIndex
  commitment : v.get "id_commitment" = some (.string (hexEncode p.req.identityCommitment))
  txHash : v.get "tx_hash" = if success.transactionHash = [] then none
    else some (.string (hexEncode success.transactionHash))
  configAccount : v.get "config_account" = some (.string cfg.config)
  configAccountId : success.configAccountId = some cfg.config

/-- The client and the gifter agree on the outcome of a request. -/
structure Agree (p : Prepared) (trace : Trace) (resp : RlnGifterResponse)
    (result : Except String Value) : Prop where
  delivered : RlnGifterRequest.decode p.req.encode = .ok p.req ∧
    RlnGifterResponse.decode resp.encode = .ok resp ∧ resp.requestId = p.requestId
  ok_iff : (∃ v, result = .ok v) ↔
    ∃ success, RegisterReturned p.req.encode trace (.ok success)
  granted : ∀ success, RegisterReturned p.req.encode trace (.ok success) →
    ∃ cfg v, result = .ok v ∧ ReturnsMembership p trace cfg success v
  failed : (¬ ∃ success, RegisterReturned p.req.encode trace (.ok success)) →
    ∃ msg, resp.failure = some ⟨msg⟩ ∧ result = .error msg

omit [SerdeJson] [CaseTables] in
theorem hexEncode_eq_empty {bytes : List UInt8} : hexEncode bytes = "" ↔ bytes = [] := by
  constructor
  · intro h
    exact hexEncode_injective (h.trans rfl)
  · rintro rfl
    rfl

omit [SerdeJson] [CaseTables] in
theorem confirmedLeaf_eq_some {reply : Value} {leaf : UInt64}
    (h : confirmedLeaf reply = some leaf) :
    (reply.get "registered").bind Value.asBool = some true ∧
      (reply.get "leaf_index").bind Value.asU64 = some leaf := by
  rw [confirmedLeaf] at h
  split at h
  · cases h
  · rename_i hregistered
    exact ⟨not_not.mp hregistered, h⟩

/-- A registration that succeeded was confirmed on chain. -/
theorem RegisterReturned.confirmed {success : MembershipAllocationSuccess}
    (h : RegisterReturned buf trace (.ok success))
    (hdecode : RlnGifterRequest.decode buf = .ok req) :
    ∃ cfg poll reply, ⟨.lockServer, some cfg⟩ ∈ trace ∧
      success.configAccountId = some cfg.config ∧
      ⟨membershipCall cfg req.identityCommitment, poll⟩ ∈ trace ∧
      moduleResult "get_membership" poll.seen = .ok reply ∧
      confirmedLeaf reply = some success.leafIndex := by
  obtain ⟨req', cfg, asked, called, last, key, hreq, rfl, -, hregister⟩ := h
  obtain rfl := Except.ok.inj (hreq.decoded.symm.trans hdecode)
  have hrun := register_after hregister
  generalize hq : (Program.ret (.ok success) :
    Prog (Except RegisterError MembershipAllocationSuccess)) = q at hrun
  cases hrun with
  | calling => cases hq
  | unsent => cases hq
  | failed => cases hq
  | confirming => cases hq
  | settled found hfound outcome reply hresult polls hpolls r hr =>
      cases hq
      rcases hr with herror | ⟨leaf, poll, m, hok, hpoll, hm, hleaf⟩
      · cases herror
      · cases hok
        exact ⟨cfg, poll, m, List.mem_cons_self, rfl, by simp [hpoll], hm, hleaf⟩

omit [CaseTables] in
/-- The reply of the client, field by field. -/
theorem returnsMembership {p : Prepared} {cfg : ServerCfg}
    {success : MembershipAllocationSuccess} (hread : ⟨.lockServer, some cfg⟩ ∈ trace)
    (hcommitment : hexEncode p.req.identityCommitment = p.idCommitmentHex)
    (haccount : success.configAccountId = some cfg.config) {poll : Outcome} {reply : Value}
    (hpoll : ⟨membershipCall cfg p.req.identityCommitment, poll⟩ ∈ trace)
    (hreply : moduleResult "get_membership" poll.seen = .ok reply)
    (hleaf : confirmedLeaf reply = some success.leafIndex) :
    ReturnsMembership p trace cfg success (membershipReply p.idCommitmentHex success) where
  read := hread
  leaf := by
    rw [membershipReply, haccount]
    by_cases hempty : hexEncode success.transactionHash = "" <;>
      simp [hempty, Value.object, Value.get_insert]
  confirmed := ⟨poll, reply, hpoll, hreply, confirmedLeaf_eq_some hleaf⟩
  commitment := by
    rw [membershipReply, haccount, hcommitment]
    by_cases hempty : hexEncode success.transactionHash = "" <;>
      simp [hempty, Value.object, Value.get_insert]
  txHash := by
    rw [membershipReply, haccount]
    by_cases hempty : success.transactionHash = []
    · simp [hempty, hexEncode_eq_empty.mpr, Value.object, Value.get_insert]
    · have hne : hexEncode success.transactionHash ≠ "" := fun h =>
        hempty (hexEncode_eq_empty.mp h)
      simp [hempty, hne, Value.object, Value.get_insert]
  configAccount := by
    rw [membershipReply, haccount]
    simp [Value.get_insert]
  configAccountId := haccount

/-- What is sent and received over a bridge that delivers the bytes gives the client
the gifter's outcome. -/
theorem readResponse_agrees {p : Prepared} {who : Caller} {argsJson : String}
    {prepared : Trace} (hprepared : (prepareRequest who argsJson).After prepared (.ret (.ok p)))
    (hgifter : (handleRequest p.req.encode).After trace (.ret resp))
    (hfits : p.req.encode.length < 2 ^ 64) (hfits' : resp.encode.length < 2 ^ 64) :
    Agree p trace resp (readResponse p resp) := by
  obtain ⟨a, hfrom⟩ := prepareRequest_after hprepared
  have hdecode := RlnGifterRequest.decode_encode_of_fits p.req hfits
  have hsettled : ∀ r, RegisterReturned p.req.encode trace r →
      resp = settleResponse p.req r := fun r hr => hr.response hdecode hgifter
  have hfailed : (¬ ∃ success, RegisterReturned p.req.encode trace (.ok success)) →
      ∃ msg, resp.failure = some ⟨msg⟩ ∧ resp.requestId = p.requestId ∧
        readResponse p resp = .error msg := by
    intro hnot
    by_cases hreturned : ∃ r, RegisterReturned p.req.encode trace r
    · obtain ⟨r, hr⟩ := hreturned
      cases r with
      | ok success => exact absurd ⟨success, hr⟩ hnot
      | error e =>
          rw [hsettled _ hr]
          exact ⟨e.message, rfl, hfrom.requestId.symm,
            readResponse_settle hfrom.requestId (.error e)⟩
    · obtain ⟨authSuccess, msg, rfl⟩ := handle_failure hreturned hdecode hgifter
      exact ⟨msg, rfl, hfrom.requestId.symm,
        readResponse_failure hfrom.requestId authSuccess msg⟩
  have hgranted : ∀ success, RegisterReturned p.req.encode trace (.ok success) →
      resp.requestId = p.requestId ∧
        readResponse p resp = .ok (membershipReply p.idCommitmentHex success) := by
    intro success hr
    rw [hsettled _ hr]
    exact ⟨hfrom.requestId.symm, readResponse_settle hfrom.requestId (.ok success)⟩
  refine ⟨⟨hdecode, RlnGifterResponse.decode_encode_of_fits resp hfits', ?_⟩, ⟨?_, ?_⟩, ?_, ?_⟩
  · by_cases hok : ∃ success, RegisterReturned p.req.encode trace (.ok success)
    · obtain ⟨success, hr⟩ := hok
      exact (hgranted success hr).1
    · obtain ⟨msg, -, hid, -⟩ := hfailed hok
      exact hid
  · rintro ⟨v, hv⟩
    by_contra hnot
    obtain ⟨msg, -, -, herror⟩ := hfailed hnot
    cases hv.symm.trans herror
  · rintro ⟨success, hr⟩
    exact ⟨_, (hgranted success hr).2⟩
  · intro success hr
    obtain ⟨cfg, poll, reply, hread, haccount, hpoll, hreply, hleaf⟩ := hr.confirmed hdecode
    exact ⟨cfg, _, (hgranted success hr).2, returnsMembership hread
      hfrom.hexEncode_commitment haccount hpoll hreply hleaf⟩
  · intro hnot
    obtain ⟨msg, hfailure, -, herror⟩ := hfailed hnot
    exact ⟨msg, hfailure, herror⟩

variable [Base64]

/-- A request that was prepared and answered by the bridge returns what the reply
says. -/
theorem request_after {p : Prepared} {who : Caller} {argsJson : String}
    {prepared sent : Trace} {pr : Value}
    (hprepared : (prepareRequest who argsJson).After prepared (.ret (.ok p)))
    (hsent : (callLibp2p who "protocolRequest" (protocolRequestArgs p)
      requestCallTimeoutMs).After sent (.ret (.ok pr))) :
    (request who argsJson).After (prepared ++ sent) (.ret (readReply p pr)) := by
  have hsend : (sendRequest who p).After (sent ++ []) (.ret (readReply p pr)) :=
    after_bind hsent (after_nil.mpr rfl)
  rw [List.append_nil] at hsend
  exact after_bind hprepared hsend

/-- The client and the gifter agree.  The client's arguments got as far as sending
(`prepared`), the bridge hands the gifter the bytes of the request and the client those
of the response. -/
theorem client_gifter_agree {p : Prepared} {who : Caller} {argsJson : String}
    {prepared sent : Trace} {bytes : List UInt8} {pr : Value} {result : Except String Value}
    (hprepared : (prepareRequest who argsJson).After prepared (.ret (.ok p)))
    (hsent : (callLibp2p who "protocolRequest" (protocolRequestArgs p)
      requestCallTimeoutMs).After sent (.ret (.ok pr)))
    (hrequest : b64Decode (b64 p.req.encode) = .ok bytes)
    (hgifter : (handleRequest bytes).After trace (.ret resp))
    (hresponse : (pr.get "responseB64").bind Value.asStr = some (b64 resp.encode))
    (hfits : p.req.encode.length < 2 ^ 64) (hfits' : resp.encode.length < 2 ^ 64)
    (hclient : (request who argsJson).After (prepared ++ sent) (.ret result)) :
    Agree p trace resp result := by
  rw [b64Decode_b64] at hrequest
  obtain rfl := Except.ok.inj hrequest
  have hagree := readResponse_agrees hprepared hgifter hfits hfits'
  have hreply : readReply p pr = readResponse p resp := by
    simp only [readReply, hresponse, b64Decode_b64]
    change (RlnGifterResponse.decode resp.encode >>= readResponse p) = _
    rw [hagree.delivered.2.1]
    rfl
  obtain ⟨-, hresult, -⟩ := after_ret_unique hclient (request_after hprepared hsent)
    (rfl : (prepared ++ sent) ++ [] = (prepared ++ sent) ++ [])
  rw [hresult, hreply]
  exact hagree

end Response

section Witness

/-- The arguments of a client with a voucher, its commitment in capitals. -/
def clientArgs : Value :=
  .object [("gifterPeerId", .string "peer"), ("gifterMultiaddr", .string "/ip4/127.0.0.1"),
    ("identityCommitment", .string ("0x" ++ String.join (List.replicate 32 "AB"))),
    ("authType", .string "voucher"), ("authPayload", .string "0xAA"), ("rate", .u64 20)]

/-- What these arguments prepare. -/
def clientPrepared : Prepared where
  gifterPeerId := "peer"
  gifterMultiaddr := "/ip4/127.0.0.1"
  idCommitmentHex := hexEncode (List.replicate 32 0xab)
  requestId := "gift-abababababababab"
  req :=
    { requestId := "gift-abababababababab"
      authenticationType := utf8 "voucher"
      authenticationPayload := [0xaa]
      identityCommitment := List.replicate 32 0xab
      rateLimit := some 20 }

open Platform in
theorem prepareRequest_clientArgs {text : String}
    (htext : SerdeJson.fromStr text = .ok clientArgs) :
    (prepareRequest .owner text).After [] (.ret (.ok clientPrepared)) := by
  have hpeer : (clientArgs.get "gifterPeerId").bind Value.asStr = some "peer" := by
    simp [clientArgs, Value.object, Value.get_insert]
  have haddr : (clientArgs.get "gifterMultiaddr").bind Value.asStr =
      some "/ip4/127.0.0.1" := by
    simp [clientArgs, Value.object, Value.get_insert]
  have hcommitment : toLowercase (trim0x (stringArg clientArgs "identityCommitment")) =
      hexEncode (List.replicate 32 0xab) := by
    have harg : stringArg clientArgs "identityCommitment" =
        "0x" ++ String.join (List.replicate 32 "AB") := by
      simp [stringArg, clientArgs, Value.object, Value.get_insert]
    rw [harg]
    decide +kernel
  have hgiven : stringArg clientArgs "identityCommitment" ≠ "" := by
    intro hempty
    rw [hempty] at hcommitment
    exact absurd hcommitment (by decide +kernel)
  have htype : stringArg clientArgs "authType" = "voucher" := by
    simp [stringArg, clientArgs, Value.object, Value.get_insert]
  have hpayload : stringArg clientArgs "authPayload" = "0xAA" := by
    simp [stringArg, clientArgs, Value.object, Value.get_insert]
  have hprovider : stringArg clientArgs "authProvider" = "" := by
    simp [stringArg, clientArgs, Value.object, Value.get_insert]
  have hrate : ((clientArgs.get "rate").bind Value.asU64).getD 0 = 20 := by
    simp [clientArgs, Value.object, Value.get_insert]
  have hhex : hexDecode (trim0x "0xAA") = .ok [0xaa] := by decide +kernel
  have hid : requestIdOf (hexEncode (List.replicate 32 0xab)) = "gift-abababababababab" := by
    decide +kernel
  rw [prepareRequest, htext]
  simp only [hpeer, haddr, hgiven, hcommitment, hexDecode_hexEncode, ↓reduceIte, authPayload,
    htype, hpayload, hprovider, hhex, gifterRequest, hrate, hid]
  exact after_nil.mpr rfl

theorem fits_clientPrepared : clientPrepared.req.encode.length < 2 ^ 64 := by
  decide +kernel

open Platform in
theorem producer_verifier_agree_voucher : ∃ a q,
    SerdeJson.fromStr (SerdeJson.toText clientArgs) = .ok a ∧
    PayloadFrom .owner a clientPrepared.idCommitmentHex [] [0xaa] ∧
    SaysTheSame a clientPrepared (servedCfg "c" "w" "" "voucher" voucherModule) none q := by
  have hread := (SerdeJson.toText_reads clientArgs).1 rfl
  generalize SerdeJson.toText clientArgs = text at hread
  obtain ⟨a, ha, hpayload, -, -, hverify⟩ :=
    producer_verifier_agree (prepareRequest_clientArgs hread) fits_clientPrepared
  have htype : stringArg a "authType" = "voucher" := by
    obtain rfl := Except.ok.inj (hread.symm.trans ha)
    simp [stringArg, clientArgs, Value.object, Value.get_insert]
  obtain ⟨q, verifyJson, rest, hsame, -⟩ :=
    hverify (servedCfg "c" "w" "" "voucher" voucherModule) voucherModule none
      (by simp [clientPrepared]) (by rw [htype]; simp [servedCfg, lookupField])
  exact ⟨a, q, ha, hpayload, hsame⟩

section Granted

variable [SerdeJson]

/-- The bridge's answer, read by the client on the owner thread. -/
theorem callLibp2p_answers {v : Value} {fields : List (String × Value)} {method : String}
    (args : Value) (timeoutMs : Int) (hmethod : hasNul method = false)
    (hplain : v.tree.plain 127 = true) (hview : v.view = .object fields)
    (hbare : v.get "success" = none) :
    ∃ sent, (callLibp2p .owner method args timeoutMs).After sent (.ret (.ok v)) := by
  have hargs := hasNul_toText args
  have hparse : parseOk (SerdeJson.toText v) = v := by
    rw [parseOk, if_neg (SerdeJson.toText_ne_empty _), (SerdeJson.toText_reads v).1 hplain]
  have hptr : (clientPtr .owner libp2pModule).After
      [⟨.findClient libp2pModule, true⟩, ⟨.findClient libp2pModule, true⟩] (.ret true) :=
    ⟨true, rfl, true, rfl, rfl⟩
  have hjson : ∃ sent, (callJson .owner libp2pModule method args timeoutMs).After sent
      (.ret (.ok v)) := by
    let called : Trace := [⟨.readOwner, true⟩, ⟨.invoke libp2pModule method
      (SerdeJson.toText args) timeoutMs, .ok (some (SerdeJson.toText v))⟩]
    refine ⟨_ ++ called, after_bind hptr ?_⟩
    simp only [↓reduceIte, hmethod, hargs, Bool.or_self, Bool.false_eq_true]
    refine ⟨true, rfl, .ok (some (SerdeJson.toText v)), rfl, ?_⟩
    change Program.ret (.ok v) = Program.ret (syncResult method _)
    rw [syncResult, Option.getD_some, hparse]
  obtain ⟨sent, hjson⟩ := hjson
  refine ⟨sent ++ [], after_bind hjson ?_⟩
  rw [after_nil]
  change Program.ret (.ok v) = Program.ret (unwrapLibp2p method v)
  simp only [unwrapLibp2p, hview]
  change _ = Program.ret (openEnvelope method v)
  rw [openEnvelope, hbare]

variable [CaseTables]

/-- The configuration of an open gifter. -/
def openCfg : ServerCfg :=
  ⟨"c", "w", [], "", defaultMaxRate⟩

/-- The membership an open gifter grants the client. -/
def clientMembership : MembershipAllocationSuccess :=
  membership openCfg (txHashBytes (registration 5)) 7

/-- An open gifter that registers the client's request. -/
theorem handleRequest_clientPrepared : ∃ trace,
    (handleRequest clientPrepared.req.encode).After trace
      (.ret (settleResponse clientPrepared.req (.ok clientMembership))) ∧
    RegisterReturned clientPrepared.req.encode trace (.ok clientMembership) := by
  generalize hreq : clientPrepared.req = req
  have hadmitted : Admitted req.encode req := by
    rw [← hreq]
    exact ⟨RlnGifterRequest.decode_encode_of_fits _ fits_clientPrepared,
      by simp [clientPrepared]⟩
  have hclient : rlnModule ∈ Shared.clients { server := some openCfg, clients := {rlnModule} } :=
    Finset.mem_singleton_self _
  have hauth : Does execOp (authenticateRequest openCfg req)
      { server := some openCfg, clients := {rlnModule} } [] [] (.ret (.ok none))
      { server := some openCfg, clients := {rlnModule} } := .done _ _
  have hregister : Does execOp (registerRequest openCfg req)
      { server := some openCfg, clients := {rlnModule} } _ _ (.ret (.ok clientMembership)) _ :=
    register_accepted hclient (moduleResult_registration _ 5)
      (confirm_confirmed hclient (moduleResult_confirmation _ 7)
        (confirmedLeaf_confirmation 7))
  have hall := handle_does hadmitted rfl hauth (hregister.bind (.done _ _))
  exact ⟨_, hall.after, req, openCfg, [], _, [], none, hadmitted, rfl, hauth.after,
    hregister.after⟩

end Granted

open Platform in
theorem client_gifter_agree_open : ∃ trace v,
    RegisterReturned clientPrepared.req.encode trace (.ok clientMembership) ∧
    Agree clientPrepared trace (settleResponse clientPrepared.req (.ok clientMembership))
      (.ok v) := by
  obtain ⟨trace, hgifter, hreturned⟩ := handleRequest_clientPrepared
  have hread := (SerdeJson.toText_reads clientArgs).1 rfl
  generalize SerdeJson.toText clientArgs = text at hread
  have hprepared := prepareRequest_clientArgs hread
  have htx : txHashBytes (registration 5) = [] := by
    simp [txHashBytes, registration, Value.object, Value.get_insert]
  have hfits : (settleResponse clientPrepared.req (.ok clientMembership)).encode.length <
      2 ^ 64 := by
    rw [clientMembership, htx]
    decide +kernel
  generalize settleResponse clientPrepared.req (.ok clientMembership) = resp at hgifter hfits ⊢
  obtain ⟨sent, hsent⟩ := @callLibp2p_answers _
    (.object [("responseB64", .string (b64 resp.encode))]) _ "protocolRequest"
    (protocolRequestArgs clientPrepared) requestCallTimeoutMs (by decide) rfl rfl rfl
  have hagree := client_gifter_agree hprepared hsent (b64Decode_b64 _) hgifter rfl
    fits_clientPrepared hfits (request_after hprepared hsent)
  obtain ⟨v, hv⟩ := hagree.ok_iff.mpr ⟨_, hreturned⟩
  rw [hv] at hagree
  exact ⟨trace, v, hreturned, hagree⟩

end Witness

end RlnGifter
