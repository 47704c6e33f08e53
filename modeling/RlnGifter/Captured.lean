/-
A captured attestation on its way: from the card at the client's reader through the
client's request to the gifter and its verifier.
-/
import RlnGifter.Agreement
import RlnGifter.Credentials
import RlnGifter.KeycardCapture
import RlnGifter.Replies

namespace RlnGifter

open Program Keycard KeycardAttest KeycardCapture

section Produced

variable [SerdeJson]

/-- What is read from a printed struct is read from its entries, up to their doubles. -/
theorem fromText_reads {α : Type} {name text : String} {names : List String}
    {read : Value → Option α} {entries : List (String × Value)} {x : α}
    (hnodup : (entries.map Prod.fst).Nodup) (htext : SerdeJson.structText entries = .ok text)
    (h : fromText name names read text = .ok x) :
    ∃ w : Value, w.erased = (Value.object entries).erased ∧ read w = some x := by
  obtain ⟨text', htext', -, hreads⟩ := SerdeJson.structText_reads entries hnodup
  rw [htext] at htext'
  cases htext'
  rw [fromText] at h
  split at h
  · cases h
  · rename_i w hw
    rw [fromValue] at h
    split at h
    · rename_i x' hx'
      cases h
      exact ⟨w, (hreads names).2 w hw, hx'⟩
    · cases h

variable [Crypto] [KeycardCrypto]

/-- A reply of `produce_auth` that is read as a payload is that of a capture. -/
theorem produceAuth_reply {eph : KeycardCrypto.SecretKey} {text reply : String}
    {events : List (Event ReaderAnswer)} {v : Value} {r : ProduceReply}
    (h : (produceAuth eph text).After events (.ret (.returns reply)))
    (hread : SerdeJson.fromStr reply = .ok v) (hparse : parseProduceReply v = .ok r) :
    ∃ req, fromText "ProduceRequest" ProduceRequest.names ProduceRequest.read text = .ok req ∧
      req.authType = keycardAttestAuthType ∧
      (produce eph req).After events (.ret (.returns (.ok r))) := by
  obtain ⟨result, rfl, hproduced⟩ := produceAuth_after h
  cases hreq : fromText "ProduceRequest" ProduceRequest.names ProduceRequest.read text with
  | error e =>
      have hdispatch : dispatchProduce text [KeycardCapture.keycardVector result] =
          RlnGifter.reply (Except.map ProduceReply.entries
            (.error ("produce_auth args: " ++ e))) := by
        rw [dispatchProduce, hreq]
        rfl
      rw [hdispatch, fromStr_reply_produceReply] at hread
      cases hread
      rw [parseProduceReply_replyValue] at hparse
      cases hparse
  | ok req =>
      rw [dispatchProduce_read hreq, fromStr_reply_produceReply] at hread
      cases hread
      rw [parseProduceReply_replyValue] at hparse
      split at hparse
      · rename_i htype
        subst hparse
        exact ⟨req, rfl, htype.symm, hproduced req hreq htype.symm⟩
      · cases hparse

/-- The provider is the module of the card: what a call of its `produce_auth` returned is
what a run of it at its readers replied. -/
def CapturedBy (who : Caller) (provider : String) (called : Trace) : Prop :=
  ∀ text v, (callModuleJson who provider produceMethod (.array [.string text])
      produceTimeoutMs).After called (.ret (.ok v)) →
    ∃ eph events reply, (produceAuth eph text).After events (.ret (.returns reply)) ∧
      SerdeJson.fromStr reply = .ok v

/-- The payload of the request is an attestation of its commitment, checked against the
production CA. -/
structure CapturedFor (req : RlnGifterRequest) (att : Attestation) : Prop where
  parsed : parseAttestation req.authenticationPayload = .ok att
  checked : ∃ (idc : Bytes 32) (r : ProduceReply), req.identityCommitment = idc.toList ∧
    checkCapture (boundChallenge idc.toList) req.authenticationPayload = .ok r

omit [SerdeJson] [Crypto] [KeycardCrypto] in
theorem parseHex32_ok {field value : String} {bytes : Bytes 32}
    (h : parseHex32 field value = .ok bytes) : hexDecode (trim0x value) = .ok bytes.toList := by
  rw [parseHex32] at h
  split at h
  · cases h
  · rename_i decoded hdecode
    split at h
    · cases h
      exact hdecode
    · cases h

variable [CaseTables] {who : Caller} {argsJson : String} {prepared : Trace} {a : Value}
  {p : Prepared}

/-- The payload of a prepared request is the attestation that was captured for its
commitment. -/
theorem PreparedFrom.captured (h : PreparedFrom who argsJson prepared a p)
    (htype : stringArg a "authType" = keycardAttestAuthType)
    (hgiven : stringArg a "authPayload" = "")
    (hcard : CapturedBy who (stringArg a "authProvider") prepared) :
    ∃ att, CapturedFor p.req att := by
  obtain ⟨idc, r, hidc, hcheck⟩ : ∃ (idc : Bytes 32) (r : ProduceReply),
      p.req.identityCommitment = idc.toList ∧
      checkCapture (boundChallenge idc.toList) p.req.authenticationPayload = .ok r := by
    have hpayload := authPayload_after h.payload
    generalize p.req.authenticationPayload = payload at hpayload ⊢
    cases hpayload with
    | none hnone => exact absurd (htype.symm.trans hnone) (by decide)
    | supplied _ hsome => exact absurd hgiven hsome
    | produced _ prodReq hauthType hcommitment _ prodJson hjson _ v hcall r hreply _ hdecode =>
        obtain ⟨eph, events, reply, hproduced, hread⟩ := hcard prodJson v hcall
        obtain ⟨req, hreq, -, hcaptured⟩ := produceAuth_reply hproduced hread hreply
        obtain ⟨w, hw, hreads⟩ := fromText_reads prodReq.nodup_entries hjson hreq
        obtain ⟨idc, raw, tlv, hparse, -, -, hcheck⟩ := (produce_after eph hcaptured).handed r rfl
        have hidc := parseHex32_ok hparse
        rw [(ProduceRequest.read_of_erased hw hreads).2, hcommitment, ← h.hexEncode_commitment,
          trim0x_hexEncode, hexDecode_hexEncode] at hidc
        rw [(checkCapture_ok hcheck).1, trim0x_hexEncode, hexDecode_hexEncode] at hdecode
        cases hdecode
        exact ⟨idc, r, Except.ok.inj hidc, hcheck⟩
  obtain ⟨-, att, ca, hparsed, -⟩ := checkCapture_ok hcheck
  exact ⟨att, hparsed, idc, r, hidc, hcheck⟩

end Produced

section Told

variable [SerdeJson] [CaseTables] {cfg : ServerCfg} {req : RlnGifterRequest}
  {authType verifier text : String} {rate : UInt64} {outcome : Outcome}

omit [SerdeJson] in
theorem reserveVerdict_only (nul : Option String) :
    (reserveVerdict req authType verifier nul).Only fun e => ∃ key, e = .reserve key := by
  cases nul with
  | none => exact only_ret _
  | some nul =>
      rw [reserveVerdict]
      cases wellFormed (normalize nul) with
      | false =>
          simp only [Bool.not_false, ↓reduceIte]
          exact only_ret _
      | true =>
          simp only [Bool.not_true, Bool.false_eq_true, ↓reduceIte, perform_bind]
          refine ⟨⟨_, rfl⟩, fun used => ?_⟩
          simp only
          split
          · exact only_ret _
          · exact only_ret _

theorem judge_only (reply : Value) :
    (judge req authType verifier reply).Only fun e => ∃ key, e = .reserve key := by
  rw [judge]
  split
  · exact only_ret _
  · split
    · exact only_ret _
    · exact reserveVerdict_only _

/-- Authentication that has called a verifier asked it about its request, and goes on with
the reply to that call. -/
theorem authenticate_told {asked : Trace} {q : Prog (Except RlnGifterResponse (Option String))}
    (h : (authenticate cfg req authType rate).After asked q)
    (hmem : ⟨verifyCall verifier text, outcome⟩ ∈ asked) :
    ∃ config found rest, lookupField authType cfg.authVerifiers = some (verifier, config) ∧
      SerdeJson.structText (verifyRequest req authType rate config).entries = .ok text ∧
      (∀ event ∈ found, Lookup event.1) ∧
      asked = found ++ ⟨verifyCall verifier text, outcome⟩ :: rest ∧
      ∀ reply, moduleResult verifyMethod outcome.seen = .ok reply →
        (judge req authType verifier reply).After rest q := by
  have hnone : ∀ {value : Except RlnGifterResponse (Option String)} {trace : Trace},
      (Program.ret value : Prog _).After trace q →
      ⟨verifyCall verifier text, outcome⟩ ∉ trace := by
    intro value trace hret hmem
    obtain ⟨rfl, -⟩ := ret_after.mp hret
    cases hmem
  rw [authenticate] at h
  split at h
  · exact absurd hmem (hnone h)
  · split at h
    · exact absurd hmem (hnone h)
    · rename_i verifier' config hlookup
      simp only at h
      split at h
      · exact absurd hmem (hnone h)
      · rename_i json htext
        rcases bind_after h with ⟨e, next, hcall, rfl⟩ | ⟨called, rest, r, rfl, hcall, hrest⟩
        · cases callModuleJson_worker_after hcall with
          | running _ hfound => exact absurd (hfound _ hmem) id
        · rcases (callModuleJson_worker_after hcall).returned with ⟨hfound, msg, rfl⟩ |
            ⟨found, outcome', hfound, rfl, rfl⟩
          · rcases List.mem_append.mp hmem with hmem | hmem
            · exact absurd (hfound _ hmem) id
            · exact absurd hmem (hnone hrest)
          · have hcalled : (⟨verifyCall verifier text, outcome⟩ : Event Answer) ∈
                [⟨verifyCall verifier' json, outcome'⟩] := by
              rw [List.mem_append, List.mem_append] at hmem
              rcases hmem with (hmem | hmem) | hmem
              · exact absurd (hfound _ hmem) id
              · exact hmem
              · split at hrest
                · exact absurd hmem (hnone hrest)
                · obtain ⟨key, hkey⟩ := (only_after (judge_only _) hrest).1 _ hmem
                  cases hkey
            obtain ⟨hcall, houtcome⟩ := Sigma.mk.inj_iff.mp (List.mem_singleton.mp hcalled)
            obtain ⟨rfl, rfl⟩ := verifyCall_inj hcall
            cases houtcome
            refine ⟨config, found, rest, hlookup, htext, hfound, by simp, ?_⟩
            intro reply hreply
            rw [hreply] at hrest
            exact hrest

end Told

section Judged

variable [SerdeJson] [CaseTables] {buf : List UInt8} {trace : Trace} {req : RlnGifterRequest}
  {cfg : ServerCfg} {verifier text : String} {outcome : Outcome}

/-- A request that has called a verifier called it in its authentication. -/
theorem HandleRun.told {q : Prog RlnGifterResponse} {rest : Trace} (h : HandleRun buf trace q)
    (hreq : Admitted buf req) (htrace : trace = ⟨.lockServer, some cfg⟩ :: rest)
    (hmem : ⟨verifyCall verifier text, outcome⟩ ∈ trace) :
    ∃ asked more q', rest = asked ++ more ∧ (authenticateRequest cfg req).After asked q' ∧
      ⟨verifyCall verifier text, outcome⟩ ∈ asked ∧
      ∀ response, q' = .ret (.error response) → q = .ret response := by
  have hlocked : ∀ {cfg' : ServerCfg} {asked : Trace},
      ⟨verifyCall verifier text, outcome⟩ ∈ (⟨.lockServer, some cfg'⟩ :: asked : Trace) →
      ⟨verifyCall verifier text, outcome⟩ ∈ asked := by
    intro cfg' asked hmem
    rcases List.mem_cons.mp hmem with heq | hmem
    · cases heq
    · exact hmem
  cases h with
  | malformed => cases hmem
  | missized => cases hmem
  | starting => cases hmem
  | unconfigured => cases htrace
  | authenticating req' hreq' cfg' asked e next hauth =>
      obtain ⟨rfl, rfl, rfl⟩ := hreq.same hreq' htrace.symm
      exact ⟨rest, [], _, by simp, hauth, hlocked hmem, by simp⟩
  | refused req' hreq' cfg' asked response hauth =>
      obtain ⟨rfl, rfl, rfl⟩ := hreq.same hreq' htrace.symm
      refine ⟨rest, [], _, by simp, hauth, hlocked hmem, fun response' hq => ?_⟩
      cases hq
      rfl
  | registering req' hreq' cfg' asked key hauth called e next hregister =>
      obtain ⟨rfl, rfl, rfl⟩ := hreq.same hreq' htrace.symm
      have hregistering : Registering buf (⟨.lockServer, some cfg⟩ :: (asked ++ called)) req cfg
          asked called [] := ⟨hreq, by simp, ⟨key, hauth⟩, ⟨_, hregister⟩, by simp⟩
      exact ⟨asked, called, _, rfl, hauth, hregistering.mem_asked hmem, by simp⟩
  | settling req' hreq' cfg' asked key hauth called r hregister last _ hsettle =>
      obtain ⟨rfl, rfl, rfl⟩ := hreq.same hreq' htrace.symm
      have hlast : ∀ event ∈ last, ∃ key, event.1 = .release key ∨
          event.1 = .append cfg.nullifiersPath key := by
        intro event hevent
        rcases settle_after hsettle with ⟨rfl, -⟩ | ⟨e, answer, hop, rfl, -⟩
        · cases hevent
        · rw [List.mem_singleton.mp hevent]
          obtain ⟨k, -, ⟨rfl, -⟩ | ⟨rfl, -⟩⟩ := settleOp_cases hop
          · exact ⟨k, Or.inl rfl⟩
          · exact ⟨k, Or.inr rfl⟩
      have hregistering : Registering buf (⟨.lockServer, some cfg⟩ :: (asked ++ (called ++ last)))
          req cfg asked called last := ⟨hreq, rfl, ⟨key, hauth⟩, ⟨_, hregister⟩, hlast⟩
      exact ⟨asked, called ++ last, _, rfl, hauth, hregistering.mem_asked hmem,
        by simp⟩

/-- A finished request that carries a key was registered, or its key had been used. -/
theorem Carries.registered {key : String} {response : RlnGifterResponse}
    (hcarries : Carries buf trace key) (hrun : HandleRun buf trace (.ret response)) :
    (∃ r, RegisterReturned buf trace r) ∨ ⟨.reserve key, true⟩ ∈ trace ∧
      ∃ req, Admitted buf req ∧ response = usedResponse req key := by
  rcases hcarries.finished hrun with hreserved | hused
  · left
    cases hrun with
    | malformed => cases hreserved
    | missized => cases hreserved
    | unconfigured => cases List.mem_singleton.mp hreserved
    | refused req hreq cfg asked _ hauth =>
        have hasked : ⟨.reserve key, false⟩ ∈ storeEvents asked := by
          rcases List.mem_cons.mp hreserved with heq | hmem
          · cases heq
          · exact (mem_storeEvents rfl).mpr hmem
        rcases authenticate_store (authenticate_after hauth) with ⟨hstore, -⟩ |
          ⟨k, _, hstore, -⟩ | ⟨k, -, heq⟩
        · rw [hstore] at hasked
          cases hasked
        · rw [hstore] at hasked
          cases List.mem_singleton.mp hasked
        · cases heq
    | settling req hreq cfg asked k hauth called r hregister last _ hsettle =>
        exact ⟨r, req, cfg, asked, called, last, k, hreq, rfl, hauth, hregister⟩
  · exact Or.inr hused

/-- What a thread that responded has run. -/
theorem handle_responded {P : GifterPool} (hP : gifter.WellTraced P) {id : Nat}
    {th : GifterThread} (hth : P.threads id = some th) (htask : th.task = .handle buf)
    {response : RlnGifterResponse} (hprog : th.prog = .ret (.responded response)) :
    (handleRequest buf).After th.trace (.ret response) := by
  have hafter : (taskBody (.handle buf)).After th.trace (.ret (.responded response)) := by
    rw [← htask, ← hprog]
    exact (hP id th hth).1
  rw [taskBody] at hafter
  obtain ⟨first, last, response', htrace, hrun, hlast⟩ := bind_after_ret hafter
  obtain ⟨rfl, heq⟩ := ret_after.mp hlast
  cases heq
  rw [htrace, List.append_nil]
  exact hrun

omit [SerdeJson] in
/-- The hex of bytes stands in the store as it is. -/
theorem isNullifier_hexEncode {bytes : List UInt8} (h : bytes ≠ []) :
    IsNullifier (hexEncode bytes) := by
  rw [isNullifier_iff]
  refine ⟨fun hempty => h (hexEncode_eq_empty.mp hempty), fun c hc => ?_⟩
  obtain ⟨n, hn, rfl⟩ := isHexDigit_of_mem_hexEncode hc
  obtain ⟨-, -, hspace, hcontrol, -⟩ := hexDigit_facts n hn
  exact ⟨isLower_hexDigit ⟨n, hn, rfl⟩, hspace, hcontrol⟩

end Judged

section Main

variable [SerdeJson] [CaseTables]

/-- A verdict on the request has come back. -/
def HasVerdict (trace : Trace) : Prop :=
  ∃ verifier text outcome v verdict, ⟨verifyCall verifier text, outcome⟩ ∈ trace ∧
    moduleResult verifyMethod outcome.seen = .ok v ∧ parseVerdict v = .ok verdict

variable [Crypto]

/-- The nullifier of the card that attests. -/
def cardNullifier (att : Attestation) : String :=
  hexEncode (nullifier att.identPub).toList

/-- The key of the card in the store. -/
def cardKey (att : Attestation) : String :=
  replayKey keycardAttestAuthType (cardNullifier att)

/-- What the verifier says of a captured payload. -/
def captureVerdict (cas : List (Bytes 33)) (att : Attestation) : Verdict :=
  if statusProductionCa ∈ cas then .accept (some (cardNullifier att)) else untrustedCa

/-- How a request with a captured payload fares at a gifter that trusts `cas`: with the
production CA among them it is registered, unless the card has been used, and without it it
is refused; and the client is told which. -/
structure Fares (p : Prepared) (att : Attestation) (config : Option Value)
    (cas : List (Bytes 33)) (th : GifterThread) : Prop where
  judged : (∀ v, config = some v → v.tree.plain 126 = true) → ∀ verifier text outcome v,
    ⟨verifyCall verifier text, outcome⟩ ∈ th.trace →
    moduleResult verifyMethod outcome.seen = .ok v → HasVerdict th.trace
  presented : statusProductionCa ∈ cas → HasVerdict th.trace →
    Presents p.req.encode th.trace keycardAttestAuthType (cardNullifier att)
  answered : statusProductionCa ∈ cas → HasVerdict th.trace → ∀ response,
    th.prog = .ret (.responded response) →
    (∃ r, RegisterReturned p.req.encode th.trace r ∧
      readResponse p response = match r with
        | .ok success => .ok (membershipReply p.idCommitmentHex success)
        | .error e => .error e.message) ∨
    (⟨.reserve (cardKey att), true⟩ ∈ th.trace ∧
      readResponse p response = .error ("credential already used: " ++ cardKey att))
  untrusted : statusProductionCa ∉ cas → ¬ Authorised p.req.encode th.trace
  refused : statusProductionCa ∉ cas → HasVerdict th.trace → ∀ response,
    th.prog = .ret (.responded response) → readResponse p response =
      .error "attestation verification failed: keycard backend error: attestation CA is not trusted"

section Card

variable {P : GifterPool} {id : Nat} {th : GifterThread} {buf : List UInt8}
  {req : RlnGifterRequest} {cfg : ServerCfg} {verifier text : String} {outcome : Outcome}
  {v : Value}

/-- The request was told `v` by the verifier that is configured for it, and the rest of its
authentication is what this verdict leads to. -/
structure Told (req : RlnGifterRequest) (cfg : ServerCfg) (th : GifterThread)
    (verifier text : String) (v : Value) (config : Option Value) : Prop where
  lookup : lookupField (authTypeOf req) cfg.authVerifiers = some (verifier, config)
  printed : SerdeJson.structText (verifyRequest req (authTypeOf req) (effectiveRate cfg req)
    config).entries = .ok text
  verified : ∀ verdict, parseVerdict v = .ok verdict → verdict.ok = true →
    ∃ verified more, th.trace = ⟨.lockServer, some cfg⟩ :: (verified ++ more) ∧
      Verified cfg req (authTypeOf req) (effectiveRate cfg req) verified verifier verdict
  rejected : ∀ reason, parseVerdict v = .ok (.reject reason) → ∀ response,
    th.prog = .ret (.responded response) → response = failureResponse req.requestId false reason

omit [Crypto] in
theorem Handling.told {authType : String} (h : Handling P authType id th buf req cfg)
    (hP : gifter.WellTraced P) (hmem : ⟨verifyCall verifier text, outcome⟩ ∈ th.trace)
    (hresult : moduleResult verifyMethod outcome.seen = .ok v) :
    ∃ config, Told req cfg th verifier text v config := by
  obtain ⟨q, hrun, -, hfinished⟩ := handle_thread hP h.thread h.task
  obtain ⟨rest, htrace⟩ := h.read
  obtain ⟨asked, more, q', rfl, hauth, hasked, hended⟩ := hrun.told h.admitted htrace hmem
  obtain ⟨config, found, last, hlookup, htext, hfound, rfl, hjudged⟩ :=
    authenticate_told hauth hasked
  refine ⟨config, hlookup, htext, ?_, ?_⟩
  · intro verdict hparse hok
    refine ⟨found ++ [⟨verifyCall verifier text, outcome⟩], last ++ more, by simp [htrace], ?_⟩
    exact ⟨config, text, found, outcome, v, hlookup, htext, hfound, rfl, hresult, hparse, hok⟩
  · intro reason hparse response hprog
    have hreject := hjudged v hresult
    have hok : (Verdict.reject reason).ok = false := rfl
    simp only [judge, hparse, hok, Bool.not_false, ↓reduceIte] at hreject
    obtain ⟨response', hq, heq⟩ := hfinished _ hprog
    rw [hended _ (ret_after.mp hreject).2] at hq
    cases heq
    exact (Program.ret.inj hq).symm

omit [SerdeJson] [CaseTables] [Crypto] in
theorem VerifyRequest.plain_entries {q : VerifyRequest}
    (h : ∀ v, q.config = some v → v.tree.plain 126 = true) :
    (Value.object q.entries).tree.plain 127 = true := by
  apply Value.plain_object
  intro entry hentry
  simp only [VerifyRequest.entries, List.cons_append, List.nil_append, List.mem_cons] at hentry
  rcases hentry with rfl | rfl | rfl | rfl | hconfig
  · rfl
  · rfl
  · rfl
  · rfl
  · cases hq : q.config with
    | none =>
        rw [hq] at hconfig
        cases hconfig
    | some v =>
        rw [hq] at hconfig
        cases List.mem_singleton.mp hconfig
        exact h v hq

variable {att : Attestation} {config : Option Value} {cas : List (Bytes 33)}

omit [SerdeJson] [CaseTables] in
/-- The verifier's request is about the captured payload and its commitment. -/
theorem CapturedFor.verify (h : CapturedFor req att) {q : VerifyRequest} {authType : String}
    {rate : UInt64} (hcas : KeycardAuth.parseTrustedCas config = .ok cas) (hne : cas ≠ [])
    (hsame : q.SameAs (verifyRequest req authType rate config)) :
    KeycardAuth.verify q = .ok (captureVerdict cas att) := by
  obtain ⟨idc, r, hidc, hcheck⟩ := h.checked
  obtain ⟨att', hparsed, hverify⟩ := verify_captured hcheck
  obtain rfl := Except.ok.inj (h.parsed.symm.trans hparsed)
  apply hverify q cas
  · rw [hsame.payloadHex, verifyRequest, trim0x_hexEncode, hexDecode_hexEncode]
  · rw [hsame.idCommitmentHex, verifyRequest, trim0x_hexEncode, hexDecode_hexEncode, hidc]
  · exact hsame.configEntries.trans hcas
  · exact hne

omit [SerdeJson] [CaseTables] in
/-- The card has been certified by the production CA. -/
theorem CapturedFor.certified (h : CapturedFor req att) : ∃ ca, recoverCa att = .ok ca ∧
    Crypto.toEncodedPoint ca true = statusProductionCa.toList := by
  obtain ⟨idc, r, -, hcheck⟩ := h.checked
  obtain ⟨-, att', ca, hparsed, hca, hpoint, -⟩ := checkCapture_ok hcheck
  obtain rfl := Except.ok.inj (h.parsed.symm.trans hparsed)
  exact ⟨ca, hca, hpoint⟩

omit [CaseTables] in
/-- A verdict that comes back is the one the capture deserves. -/
theorem Told.verdict (htold : Told req cfg th verifier text v config)
    (h : CapturedFor req att) (hcas : KeycardAuth.parseTrustedCas config = .ok cas)
    (hne : cas ≠ []) (hreplied : SerdeJson.fromStr (KeycardAuth.verifyAuth text) = .ok v)
    {verdict : Verdict} (hparse : parseVerdict v = .ok verdict) :
    verdict = captureVerdict cas att := by
  obtain ⟨q, hsame, hverify⟩ := dispatchVerify_verdict htold.printed hreplied hparse
  exact Except.ok.inj (hverify.symm.trans (h.verify hcas hne hsame))

omit [CaseTables] in
/-- And this verdict is what the module replies, where it can read its configuration. -/
theorem CapturedFor.replied (h : CapturedFor req att) {rate : UInt64}
    (hcas : KeycardAuth.parseTrustedCas config = .ok cas) (hne : cas ≠ [])
    (hplain : ∀ v, config = some v → v.tree.plain 126 = true)
    (hprinted : SerdeJson.structText
      (verifyRequest req keycardAttestAuthType rate config).entries = .ok text) :
    SerdeJson.fromStr (KeycardAuth.verifyAuth text) =
      .ok (.object (captureVerdict cas att).entries) := by
  have hnull : config ≠ some .null := by
    rintro rfl
    cases hcas
  have hfaithful : Faithful VerifyRequest.names
      (verifyRequest req keycardAttestAuthType rate config).entries :=
    faithful_of_plain (VerifyRequest.nodup_entries _) (VerifyRequest.plain_entries hplain)
  have hverify : KeycardAuth.verify (verifyRequest req keycardAttestAuthType rate config) =
      .ok (captureVerdict cas att) :=
    h.verify hcas hne ⟨rfl, rfl, rfl, rfl, congrArg _ (Value.optValue_of_ne_null hnull).symm⟩
  have hanswer : answerOf [KeycardAuth.keycardVector] keycardAttestAuthType
      (AuthVector.verify · (verifyRequest req keycardAttestAuthType rate config)) =
      .ok (captureVerdict cas att) := by
    rw [answerOf_singleton]
    exact (if_pos rfl).trans hverify
  rw [KeycardAuth.verifyAuth, dispatchVerify_of_faithful hnull hfaithful hprinted,
    fromStr_reply_verdict]
  exact congrArg (fun result : Except String Verdict =>
    Except.ok (replyValue (result.map Verdict.entries))) hanswer

/-- An untrusted capture does not get past authentication. -/
theorem Handling.untrusted (h : Handling P keycardAttestAuthType id th buf req cfg)
    (hcaptured : CapturedFor req att)
    (hlookup : lookupField keycardAttestAuthType cfg.authVerifiers = some (verifier, config))
    (hcas : KeycardAuth.parseTrustedCas config = .ok cas)
    (hanswered : AnsweredBy keycardAttestAuthType KeycardAuth.verifyAuth P)
    (huntrusted : statusProductionCa ∉ cas) : ¬ Authorised buf th.trace := by
  intro hauthorised
  obtain ⟨verifier', config', cas', att', hlookup', hcas', hattests, -⟩ :=
    h.attests hanswered hauthorised
  rw [hlookup] at hlookup'
  cases hlookup'
  obtain rfl := Except.ok.inj (hcas.symm.trans hcas')
  obtain rfl := Except.ok.inj (hcaptured.parsed.symm.trans hattests.parsed)
  obtain ⟨ca, hca, hpoint⟩ := hcaptured.certified
  obtain ⟨ca', t, hca', ht, heq⟩ := hattests.trusted
  obtain rfl := Except.ok.inj (hca.symm.trans hca')
  rw [List.Vector.toList_injective (heq.trans hpoint)] at ht
  exact huntrusted ht

omit [CaseTables] in
/-- A capture with a trusted verdict presents the nullifier of its card. -/
theorem Handling.presents (h : Handling P keycardAttestAuthType id th buf req cfg)
    (htold : Told req cfg th verifier text v config)
    (hparse : parseVerdict v = .ok (.accept (some (cardNullifier att)))) :
    Presents buf th.trace keycardAttestAuthType (cardNullifier att) := by
  obtain ⟨verified, more, htrace, hverified⟩ := htold.verified _ hparse rfl
  exact ⟨req, cfg, verified, more, verifier, _, h.admitted, htrace, hverified, rfl, h.authType⟩

/-- What a client reads of a request that presents a card. -/
theorem Handling.reads (h : Handling P keycardAttestAuthType id th buf req cfg)
    (hP : gifter.WellTraced P)
    (hpresents : Presents buf th.trace keycardAttestAuthType (cardNullifier att)) {p : Prepared}
    (hid : p.requestId = req.requestId) {response : RlnGifterResponse}
    (hprog : th.prog = .ret (.responded response)) :
    (∃ r, RegisterReturned buf th.trace r ∧
      readResponse p response = match r with
        | .ok success => .ok (membershipReply p.idCommitmentHex success)
        | .error e => .error e.message) ∨
    (⟨.reserve (cardKey att), true⟩ ∈ th.trace ∧
      readResponse p response = .error ("credential already used: " ++ cardKey att)) := by
  have hafter := handle_responded hP h.thread h.task hprog
  have hformed : IsNullifier (cardNullifier att) := isNullifier_hexEncode fun hempty => by
    have hlength := congrArg List.length hempty
    rw [List.Vector.toList_length] at hlength
    cases hlength
  have hnormalized := normalize_of_isNullifier hformed
  have hcarries := hpresents.carries (by rw [hnormalized]; exact hformed.1)
  rw [hnormalized] at hcarries
  rcases hcarries.registered (handleRequest_after hafter) with ⟨r, hr⟩ |
    ⟨hused, req', hreq', rfl⟩
  · refine Or.inl ⟨r, hr, ?_⟩
    rw [hr.response h.admitted.decoded hafter]
    exact readResponse_settle hid r
  · obtain rfl := h.admitted.unique hreq'
    exact Or.inr ⟨hused, readResponse_failure hid false _⟩

end Card

variable [KeycardCrypto]

/-- From the card to the membership: a request whose payload was captured for its
commitment at the client's reader is judged by what the gifter trusts, and the card by what
it has been used for. -/
theorem captured_fares {who : Caller} {argsJson : String} {prepared : Trace} {a : Value}
    {p : Prepared} (hprepared : (prepareRequest who argsJson).After prepared (.ret (.ok p)))
    (hargs : SerdeJson.fromStr argsJson = .ok a)
    (htype : stringArg a "authType" = keycardAttestAuthType)
    (hgiven : stringArg a "authPayload" = "")
    (hcard : CapturedBy who (stringArg a "authProvider") prepared)
    (hfits : p.req.encode.length < 2 ^ 64) :
    ∃ att, parseAttestation p.req.authenticationPayload = .ok att ∧
      ∀ (s : Shared) (actions : List (Action Task Env)) (id : Nat) (th : GifterThread)
        (cfg : ServerCfg) (rest : Trace) (verifier : String) (config : Option Value)
        (cas : List (Bytes 33)),
        (gifter.run (Pool.initial s) actions).threads id = some th →
        th.task = .handle p.req.encode → th.trace = ⟨.lockServer, some cfg⟩ :: rest →
        lookupField keycardAttestAuthType cfg.authVerifiers = some (verifier, config) →
        KeycardAuth.parseTrustedCas config = .ok cas → cas ≠ [] →
        AnsweredBy keycardAttestAuthType KeycardAuth.verifyAuth
          (gifter.run (Pool.initial s) actions) →
        Fares p att config cas th := by
  obtain ⟨a', hfrom⟩ := prepareRequest_after hprepared
  obtain rfl := Except.ok.inj (hargs.symm.trans hfrom.parsed)
  obtain ⟨att, hcaptured⟩ := hfrom.captured htype hgiven hcard
  refine ⟨att, hcaptured.parsed, ?_⟩
  intro s actions id th cfg rest verifier config cas hth htask htrace hlookup hcas hne hanswered
  have hP := gifter.wellTraced_run s actions
  have hreq : Admitted p.req.encode p.req := by
    obtain ⟨idc, -, hidc, -⟩ := hcaptured.checked
    exact ⟨RlnGifterRequest.decode_encode_of_fits p.req hfits, by
      rw [hidc, List.Vector.toList_length]⟩
  have hauthType : authTypeOf p.req = keycardAttestAuthType := by
    rw [authTypeOf, hfrom.req]
    exact (fromUtf8Lossy_utf8 _).trans htype
  have hhandling : Handling (gifter.run (Pool.initial s) actions) keycardAttestAuthType id th
      p.req.encode p.req cfg := by
    refine ⟨hth, htask, hreq, hauthType, ⟨rest, htrace⟩, fun hopen => ?_⟩
    rw [hopen] at hlookup
    cases hlookup
  have htold : ∀ {verifier' text : String} {outcome : Outcome} {v : Value},
      ⟨verifyCall verifier' text, outcome⟩ ∈ th.trace →
      moduleResult verifyMethod outcome.seen = .ok v →
      Told p.req cfg th verifier' text v config ∧
        SerdeJson.fromStr (KeycardAuth.verifyAuth text) = .ok v := by
    intro verifier' text outcome v hmem hresult
    obtain ⟨config', htold⟩ := hhandling.told hP hmem hresult
    have hsame := htold.lookup
    rw [hauthType, hlookup] at hsame
    cases hsame
    exact ⟨htold, hanswered id th _ _ _ _ _ hth hmem hauthType htold.printed hresult⟩
  have hverdict : HasVerdict th.trace → ∃ verifier' text v,
      Told p.req cfg th verifier' text v config ∧
        parseVerdict v = .ok (captureVerdict cas att) := by
    rintro ⟨verifier', text, outcome, v, verdict, hmem, hresult, hparse⟩
    obtain ⟨htold, hreplied⟩ := htold hmem hresult
    exact ⟨verifier', text, v, htold,
      htold.verdict hcaptured hcas hne hreplied hparse ▸ hparse⟩
  have hpresents : statusProductionCa ∈ cas → HasVerdict th.trace →
      Presents p.req.encode th.trace keycardAttestAuthType (cardNullifier att) := by
    intro htrusted hhas
    obtain ⟨verifier', text, v, htold, hparse⟩ := hverdict hhas
    rw [captureVerdict, if_pos htrusted] at hparse
    exact hhandling.presents htold hparse
  constructor
  · intro hplain verifier' text outcome v hmem hresult
    obtain ⟨htold, hreplied⟩ := htold hmem hresult
    have hprinted := htold.printed
    rw [hauthType] at hprinted
    have hparse := parseVerdict_entries (captureVerdict cas att)
    rw [← Except.ok.inj (hreplied.symm.trans (hcaptured.replied hcas hne hplain hprinted))]
      at hparse
    exact ⟨verifier', text, outcome, v, _, hmem, hresult, hparse⟩
  · exact hpresents
  · intro htrusted hhas response hprog
    exact hhandling.reads hP (hpresents htrusted hhas) hfrom.requestId hprog
  · exact hhandling.untrusted hcaptured hlookup hcas hanswered
  · intro huntrusted hhas response hprog
    obtain ⟨verifier', text, v, htold, hparse⟩ := hverdict hhas
    rw [captureVerdict, if_neg huntrusted] at hparse
    rw [htold.rejected _ hparse response hprog]
    exact readResponse_failure hfrom.requestId false _

end Main

section Called

variable [SerdeJson] {who : Caller} {target method : String} {args : Value} {timeoutMs : Int}

/-- A call prepares itself, and makes itself. -/
theorem callModuleJson_calls : (callModuleJson who target method args timeoutMs).Only fun e =>
    Preparing e ∨ e = .invoke target method (SerdeJson.toText args) timeoutMs ∨
      e = .invokeAsync target method (SerdeJson.toText args) timeoutMs := by
  refine only_bind ?_ fun _ => only_ret _
  rw [callJson]
  refine only_bind (only_mono (fun _ => Or.inl) (clientPtr_preparing who target)) fun ptr => ?_
  split
  · split
    · exact only_ret _
    · refine only_bind (only_mono (fun _ => Or.inl) (onOwnerThread_preparing who)) fun owner => ?_
      split
      · exact ⟨Or.inr (Or.inl rfl), fun _ => only_ret _⟩
      · exact ⟨Or.inr (Or.inr rfl), fun _ => only_ret _⟩
  · exact only_ret _

theorem args_injective {text text' : String}
    (h : SerdeJson.toText (.array [.string text]) = SerdeJson.toText (.array [.string text'])) :
    text = text' := by
  have hreads := (SerdeJson.toText_reads (.array [.string text])).1 rfl
  rw [h, (SerdeJson.toText_reads (.array [.string text'])).1 rfl] at hreads
  have hitems := congrArg Value.asArray (Except.ok.inj hreads)
  rw [Value.asArray_array, Value.asArray_array] at hitems
  cases hitems
  rfl

/-- A call made on the owner thread, to a client that is there. -/
def ownerTrace (target method argsJson : String) (timeoutMs : Int) (raw : String) : Trace :=
  [⟨.findClient target, true⟩, ⟨.findClient target, true⟩, ⟨.readOwner, true⟩,
    ⟨.invoke target method argsJson timeoutMs, .ok (some raw)⟩]

theorem callModuleJson_owner (raw : String) (hmethod : hasNul method = false) :
    (callModuleJson .owner target method args timeoutMs).After
      (ownerTrace target method (SerdeJson.toText args) timeoutMs raw)
      (.ret (moduleReply method raw)) := by
  have hargs := hasNul_toText args
  have hptr : (clientPtr .owner target).After
      [⟨.findClient target, true⟩, ⟨.findClient target, true⟩] (.ret true) :=
    ⟨true, rfl, true, rfl, rfl⟩
  have hjson : (callJson .owner target method args timeoutMs).After
      (ownerTrace target method (SerdeJson.toText args) timeoutMs raw)
      (.ret (.ok (parseOk raw))) := by
    refine after_bind hptr ?_
    simp only [↓reduceIte, hmethod, hargs, Bool.or_self, Bool.false_eq_true]
    exact ⟨true, rfl, .ok (some raw), rfl, rfl⟩
  exact after_bind hjson (after_nil.mpr rfl)

end Called

namespace CardRequest

open Platform

def provider : String := "keycard_capture_module"

def verifierModule : String := "keycard_auth_module"

/-- The arguments of a client with a card. -/
def args : Value :=
  .object [("gifterPeerId", .string "peer"), ("gifterMultiaddr", .string "/ip4/127.0.0.1"),
    ("identityCommitment", .string (hexEncode (List.replicate 32 0xab))),
    ("authType", .string keycardAttestAuthType), ("authProvider", .string provider)]

/-- What these arguments prepare. -/
def prepared : Prepared where
  gifterPeerId := "peer"
  gifterMultiaddr := "/ip4/127.0.0.1"
  idCommitmentHex := hexEncode (List.replicate 32 0xab)
  requestId := "gift-abababababababab"
  req :=
    { requestId := "gift-abababababababab"
      authenticationType := utf8 keycardAttestAuthType
      authenticationPayload := cardTlv
      identityCommitment := List.replicate 32 0xab }

/-- The reply of the module of the card. -/
def replied : String := RlnGifter.reply (.ok (ProduceReply.mk (hexEncode cardTlv)).entries)

theorem fromStr_replied :
    SerdeJson.fromStr replied = .ok (.object (ProduceReply.mk (hexEncode cardTlv)).entries) :=
  fromStr_reply_produceReply (.ok ⟨hexEncode cardTlv⟩)

theorem isJson_replied :
    IsJson replied (.object (ProduceReply.mk (hexEncode cardTlv)).entries) := by
  refine ⟨fun hempty => ?_, fromStr_replied⟩
  have hread := fromStr_replied
  rw [hempty] at hread
  cases hread

theorem moduleReply_replied : moduleReply produceMethod replied =
    .ok (.object (ProduceReply.mk (hexEncode cardTlv)).entries) := by
  rw [moduleReply, isJson_replied.parseOk]
  rfl

/-- The call of the provider. -/
def called (text : String) : Trace :=
  ownerTrace provider produceMethod (SerdeJson.toText (.array [.string text])) produceTimeoutMs
    replied

theorem called_after (text : String) :
    (callModuleJson .owner provider produceMethod (.array [.string text]) produceTimeoutMs).After
      (called text) (.ret (.ok (.object (ProduceReply.mk (hexEncode cardTlv)).entries))) := by
  rw [← moduleReply_replied]
  exact callModuleJson_owner replied (by decide)

theorem plain_cardRequest : (Value.object cardRequest.entries).tree.plain 127 = true := by
  apply Value.plain_object
  simp only [ProduceRequest.entries, cardRequest, optEntry, List.cons_append, List.nil_append,
    List.forall_mem_cons, List.not_mem_nil, false_implies, implies_true, and_true]
  exact ⟨rfl, rfl⟩

theorem produceAuth_cardRequest {text : String}
    (htext : SerdeJson.structText cardRequest.entries = .ok text) :
    letI := oneCard; letI := sampleCrypto
    (produceAuth () text).After (cardTrace (List.Vector.replicate 32 0))
      (.ret (.returns replied)) := by
  let _ := oneCard
  let _ := sampleCrypto
  have hfaithful : Faithful ProduceRequest.names cardRequest.entries :=
    faithful_of_plain cardRequest.nodup_entries plain_cardRequest
  have hread : fromText "ProduceRequest" ProduceRequest.names ProduceRequest.read text =
      .ok cardRequest := by
    have hargs : cardRequest.args ≠ some .null := nofun
    simp only [fromText, hfaithful text htext, fromValue, ProduceRequest.read_entries hargs]
  have htype : keycardAttestAuthType = cardRequest.authType := rfl
  rw [produceAuth, hread]
  simp only [htype, ↓reduceIte]
  rw [← List.append_nil (cardTrace _)]
  refine after_bind produce_cardRequest ?_
  exact after_nil.mpr rfl

/-- What the call returned is what the module of the card replied. -/
theorem capturedBy_called {text : String}
    (htext : SerdeJson.structText cardRequest.entries = .ok text) :
    letI := oneCard; letI := sampleCrypto
    CapturedBy .owner provider (called text) := by
  let _ := oneCard
  let _ := sampleCrypto
  intro text' v hcall
  let event : Event Answer := ⟨.invoke provider produceMethod
    (SerdeJson.toText (.array [.string text])) produceTimeoutMs, .ok (some replied)⟩
  have hmem : event ∈ called text := by simp [event, called, ownerTrace]
  have hargs : text = text' := by
    rcases (only_after callModuleJson_calls hcall).1 event hmem with hnone | heq | heq
    · exact absurd hnone id
    · injection heq with _ _ hargs
      exact args_injective hargs
    · cases heq
  subst hargs
  have hreply : Replied event (some replied) := rfl
  have hv := callModuleJson_replied hcall hmem hreply
  rw [Option.getD_some, moduleReply_replied] at hv
  cases hv
  exact ⟨(), _, replied, produceAuth_cardRequest htext, fromStr_replied⟩

theorem prepareRequest_args {argsJson text : String}
    (hargs : SerdeJson.fromStr argsJson = .ok args)
    (htext : SerdeJson.structText cardRequest.entries = .ok text) :
    (prepareRequest .owner argsJson).After (called text) (.ret (.ok prepared)) := by
  have hpeer : (args.get "gifterPeerId").bind Value.asStr = some "peer" := by
    simp [args, Value.object, Value.get_insert]
  have haddr : (args.get "gifterMultiaddr").bind Value.asStr = some "/ip4/127.0.0.1" := by
    simp [args, Value.object, Value.get_insert]
  have hgiven : stringArg args "identityCommitment" = hexEncode (List.replicate 32 0xab) := by
    simp [stringArg, args, Value.object, Value.get_insert]
  have hne : hexEncode (List.replicate 32 0xab) ≠ "" := by
    rw [ne_eq, hexEncode_eq_empty]
    simp
  have htype : stringArg args "authType" = keycardAttestAuthType := by
    simp [stringArg, args, Value.object, Value.get_insert]
  have htyped : keycardAttestAuthType ≠ "" := by decide
  have hpayload : stringArg args "authPayload" = "" := by
    simp [stringArg, args, Value.object, Value.get_insert]
  have hprovider : stringArg args "authProvider" = provider := by
    simp [stringArg, args, Value.object, Value.get_insert]
  have hauthArgs : args.get "authArgs" = none := by
    simp [args, Value.object, Value.get_insert]
  have hrate : ((args.get "rate").bind Value.asU64).getD 0 = 0 := by
    simp [args, Value.object, Value.get_insert]
  have hid : requestIdOf (hexEncode (List.replicate 32 0xab)) = "gift-abababababababab" := by
    decide +kernel
  have hproduced : (producePayload .owner provider cardRequest).After (called text)
      (.ret (.ok cardTlv)) := by
    rw [producePayload, htext, ← List.append_nil (called text)]
    refine after_bind (called_after text) ?_
    have hparse := parseProduceReply_replyValue (.ok ⟨hexEncode cardTlv⟩)
    rw [Except.map, replyValue] at hparse
    simp only [hparse, trim0x_hexEncode, hexDecode_hexEncode]
    exact after_nil.mpr rfl
  rw [prepareRequest, hargs]
  simp only [hpeer, haddr, hgiven, hne, toLowercase_hexEncode, trim0x_hexEncode,
    hexDecode_hexEncode, ↓reduceIte, authPayload, htype, htyped, hpayload, hprovider,
    hauthArgs, gifterRequest, hrate, hid]
  rw [← List.append_nil (called text)]
  refine after_bind hproduced ?_
  exact after_nil.mpr rfl

theorem fits_prepared : prepared.req.encode.length < 2 ^ 64 := by
  decide +kernel

/-- The configuration of a verifier that trusts the production CA. -/
def trustsProduction : Value :=
  .object [("trusted_cas", .array [.string (hexEncode statusProductionCa.toList)])]

theorem parseTrustedCas_production :
    KeycardAuth.parseTrustedCas (some trustsProduction) = .ok [statusProductionCa] := by
  have hitems : ((some trustsProduction).bind (Value.get · "trusted_cas")).bind Value.asArray =
      some [.string (hexEncode statusProductionCa.toList)] := by
    simp [trustsProduction, Value.object, Value.get_insert]
  have hentry : KeycardAuth.trustedCa (some (hexEncode statusProductionCa.toList)) =
      .ok statusProductionCa := by
    rw [KeycardAuth.trustedCa]
    simp only [trim0x_hexEncode, hexDecode_hexEncode]
    rfl
  rw [KeycardAuth.parseTrustedCas, configEntries, hitems]
  simp only [List.mapM_cons, List.mapM_nil, Value.asStr_string, hentry]
  rfl

def served : ServerCfg :=
  ⟨"config", "wallet", [(keycardAttestAuthType, verifierModule, some trustsProduction)], "used",
    100⟩

/-- The state a gifter of cards serves from. -/
def serving : Shared where
  server := some served
  clients := insert verifierModule {rlnModule}

/-- The attestation of the one card. -/
def att : letI := oneCard; Attestation :=
  letI := oneCard
  ⟨List.Vector.replicate 33 0, List.Vector.replicate 65 0, ()⟩

def nul : String := hexEncode (List.replicate 32 0)

theorem cardNullifier_att : letI := oneCard; cardNullifier att = nul := rfl

theorem capturedFor_prepared : letI := oneCard; CapturedFor prepared.req att := by
  let _ := oneCard
  exact ⟨parseAttestation_cardTlv, List.Vector.replicate 32 0xab, _, rfl,
    checkCapture_cardTlv _⟩

theorem authTypeOf_prepared : authTypeOf prepared.req = keycardAttestAuthType :=
  fromUtf8Lossy_utf8 _

theorem accepting_prepared : Accepting prepared.req.encode prepared.req served serving
    (replyWith (acceptance nul)) nul where
  admitted := ⟨RlnGifterRequest.decode_encode_of_fits _ fits_prepared, rfl⟩
  server := rfl
  accepted := by
    refine ⟨verifierModule, some trustsProduction, acceptance nul, none, ?_,
      Finset.mem_insert_self _ _,
      moduleResult_replyWith (Verdict.plain_entries _) verifyMethod, parseVerdict_entries _⟩
    rw [authTypeOf_prepared]
    rfl
  formed := by
    have hformed : IsNullifier nul := isNullifier_hexEncode (by simp)
    rw [normalize_of_isNullifier hformed]
    exact hformed.1

theorem handling_prepared :
    ∃ th, Handling (grantRun serving prepared.req.encode nul) keycardAttestAuthType
        0 th prepared.req.encode prepared.req served ∧
      Granted prepared.req.encode th.trace ∧
      (∃ event ∈ th.trace, IsRegisterMember event.1) ∧
      ∀ id th', (grantRun serving prepared.req.encode nul).threads id = some th' → th' = th := by
  rw [← authTypeOf_prepared]
  exact granted_alone accepting_prepared (fun key => Finset.notMem_empty key)
    (Finset.mem_insert_of_mem (Finset.mem_singleton_self _)) (by decide)

/-- Whatever the request was told is what the verifier of the cards says of it. -/
theorem answeredBy_prepared : letI := oneCard
    AnsweredBy keycardAttestAuthType KeycardAuth.verifyAuth
      (grantRun serving prepared.req.encode nul) := by
  let _ := oneCard
  intro id th verifier q text outcome v hth hmem _ _ hresult
  obtain ⟨th', hhandling, -, hcall, honly⟩ := handling_prepared
  obtain rfl := honly id th hth
  obtain ⟨rfl, config, hlookup, htext⟩ := told_alone hhandling hcall hmem hresult
  have hconfig : lookupField keycardAttestAuthType served.authVerifiers =
      some (verifierModule, some trustsProduction) := rfl
  rw [hconfig] at hlookup
  cases hlookup
  have hplain : ∀ v, some trustsProduction = some v → v.tree.plain 126 = true := by
    intro v hv
    cases hv
    rfl
  have hverdict : captureVerdict [statusProductionCa] att = .accept (some nul) := by
    rw [captureVerdict, if_pos (List.mem_singleton_self _), cardNullifier_att]
  rw [capturedFor_prepared.replied parseTrustedCas_production (List.cons_ne_nil _ _) hplain htext,
    hverdict]
  rfl

end CardRequest

open Platform CardRequest in
/-- The holder of the one card is granted its membership. -/
theorem captured_fares_card : letI := oneCard
    ∃ att th, parseAttestation prepared.req.authenticationPayload = .ok att ∧
      Fares prepared att (some trustsProduction) [statusProductionCa] th ∧
      Granted prepared.req.encode th.trace := by
  let _ := oneCard
  let _ := sampleCrypto
  have hread := (SerdeJson.toText_reads args).1 rfl
  generalize SerdeJson.toText args = argsJson at hread
  obtain ⟨text, htext, -⟩ := SerdeJson.structText_reads _ cardRequest.nodup_entries
  have htype : stringArg args "authType" = keycardAttestAuthType := by
    simp [stringArg, args, Value.object, Value.get_insert]
  have hpayload : stringArg args "authPayload" = "" := by
    simp [stringArg, args, Value.object, Value.get_insert]
  have hprovider : stringArg args "authProvider" = provider := by
    simp [stringArg, args, Value.object, Value.get_insert]
  have hrun : grantRun serving prepared.req.encode nul = gifter.run (Pool.initial serving)
      (System.solo 0 (.handle prepared.req.encode) (grantEnvs nul)) := rfl
  obtain ⟨th, hhandling, hgranted, -⟩ := handling_prepared
  have hanswered := answeredBy_prepared
  rw [hrun] at hhandling hanswered
  obtain ⟨rest, htrace⟩ := hhandling.read
  obtain ⟨att, hparsed, hfares⟩ := captured_fares (prepareRequest_args hread htext) hread htype
    hpayload (hprovider ▸ capturedBy_called htext) fits_prepared
  exact ⟨att, th, hparsed, hfares serving _ 0 th served rest verifierModule
    (some trustsProduction) [statusProductionCa] hhandling.thread hhandling.task htrace rfl
    parseTrustedCas_production (List.cons_ne_nil _ _) hanswered, hgranted⟩

end RlnGifter
