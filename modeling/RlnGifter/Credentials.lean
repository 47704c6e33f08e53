/-
One card, one membership; one address, one membership.  Behind the gifter stand the
verifiers of the repository: what they accept is bound to the commitment that is
registered, and the nullifier they name is the same for every form of a credential.
-/
import RlnGifter.Authorisation
import RlnGifter.Isolation
import RlnGifter.Mint
import RlnGifter.Vectors

namespace RlnGifter

open Program KeycardAttest

section Memberships

variable [SerdeJson] [CaseTables]

/-- The verifier of the requests of type `authType` is the module with this
`verify_auth`: what a call returned is what that module replies to the request. -/
def AnsweredBy (authType : String) (verifyAuth : String → String) (P : GifterPool) : Prop :=
  ∀ id th verifier q text outcome v, P.threads id = some th →
    ⟨verifyCall verifier text, outcome⟩ ∈ th.trace → VerifyRequest.authType q = authType →
    SerdeJson.structText q.entries = .ok text →
    moduleResult verifyMethod outcome.seen = .ok v →
    SerdeJson.fromStr (verifyAuth text) = .ok v

/-- Thread `id` handles `req` as a request of type `authType`, under a configuration
with verifiers. -/
structure Handling (P : GifterPool) (authType : String) (id : Nat) (th : GifterThread)
    (buf : List UInt8) (req : RlnGifterRequest) (cfg : ServerCfg) : Prop where
  thread : P.threads id = some th
  task : th.task = .handle buf
  admitted : Admitted buf req
  authType : authTypeOf req = authType
  read : ∃ rest, th.trace = ⟨.lockServer, some cfg⟩ :: rest
  closed : cfg.authVerifiers ≠ []

section Checked

variable {P : GifterPool} {id : Nat} {th : GifterThread} {buf : List UInt8}
  {req : RlnGifterRequest} {cfg : ServerCfg}

omit [SerdeJson] [CaseTables] in
/-- What the handler read and found configured. -/
theorem Handling.same {authType : String} {req' : RlnGifterRequest} {cfg' : ServerCfg}
    {rest : Trace} (h : Handling P authType id th buf req cfg) (hreq' : Admitted buf req')
    (htrace : th.trace = ⟨.lockServer, some cfg'⟩ :: rest) : req = req' ∧ cfg = cfg' := by
  obtain ⟨tail, hread⟩ := h.read
  obtain ⟨hreq, hcfg, -⟩ := h.admitted.same hreq' (hread.symm.trans htrace)
  exact ⟨hreq, hcfg⟩

/-- A request that got past authentication was checked by its vector, against what is
configured and with the commitment that is registered. -/
theorem Handling.checked {α : Type} (vector : AuthVector)
    (parseConfig : Option Value → Except String (List α))
    (check : List α → List UInt8 → List UInt8 → Except String String) {empty : String}
    (hverify : vector.verify = verifyWith parseConfig empty check)
    (hconfig : ∀ {q' q : VerifyRequest}, q'.SameAs q →
      parseConfig q'.config = parseConfig q.config)
    (hanswered : AnsweredBy vector.authType (dispatchVerify · [vector]) P)
    (h : Handling P vector.authType id th buf req cfg)
    (hauthorised : Authorised buf th.trace) :
    ∃ verifier config listed nul,
      lookupField vector.authType cfg.authVerifiers = some (verifier, config) ∧
      parseConfig config = .ok listed ∧
      check listed req.authenticationPayload req.identityCommitment = .ok nul ∧
      Presents buf th.trace vector.authType nul := by
  obtain ⟨req', cfg', asked, rest, k, hreq', htrace, hauth⟩ := hauthorised
  obtain ⟨rfl, rfl⟩ := h.same hreq' htrace
  obtain ⟨verified, more, verifier, verdict, rfl, hverified, -⟩ :=
    authenticated_verdict hauth h.closed
  have hpresents : ∀ nul, verdict.nullifier = some nul →
      Presents buf th.trace vector.authType nul := by
    intro nul hnul
    refine ⟨req, cfg, verified, more ++ rest, verifier, verdict, h.admitted, ?_, hverified,
      hnul, h.authType⟩
    rw [htrace, List.append_assoc]
  obtain ⟨config, verifyJson, found, outcome, replied, hlookup, htext, -, rfl, hresult,
    hparse, hok⟩ := hverified
  have hreplied := hanswered id th verifier _ verifyJson outcome replied h.thread
    (by rw [htrace]; simp) h.authType htext hresult
  obtain ⟨q, hsame, hverdict⟩ := dispatchVerify_verdict htext hreplied hparse
  rw [hverify] at hverdict
  obtain ⟨listed, payload, idCommitment, nul, hlisted, hpayload, hcommitment, hnul,
    hnullifier⟩ := verifyWith_accepts hverdict hok
  rw [hconfig hsame] at hlisted
  rw [hsame.payloadHex] at hpayload
  rw [hsame.idCommitmentHex] at hcommitment
  simp only [verifyRequest, trim0x_hexEncode, hexDecode_hexEncode, Except.ok.injEq]
    at hpayload hcommitment
  subst hpayload hcommitment
  rw [h.authType] at hlookup
  exact ⟨verifier, config, listed, nul, hlookup, hlisted, hnul, hpresents nul hnullifier⟩

/-- A request registers the commitment that it was checked with. -/
theorem Handling.registers {s : Shared} {actions : List (Action Task Env)}
    {authType : String}
    (h : Handling (gifter.run (Pool.initial s) actions) authType id th buf req cfg)
    {event : Event Answer} (hevent : event ∈ th.trace) (hcall : IsRegisterMember event.1) :
    Authorised buf th.trace ∧
      event.1 = registerCall cfg req.identityCommitment (effectiveRate cfg req) := by
  obtain ⟨q, hrun, -⟩ := handle_thread (gifter.wellTraced_run s actions) h.thread h.task
  have hauthorised := hrun.authorised hevent hcall
  refine ⟨hauthorised, ?_⟩
  rcases hrun.registering_cases with hnone | ⟨req', cfg', asked, called, last, hregistering⟩
  · exact absurd hcall (hnone event hevent)
  · obtain ⟨rfl, rfl⟩ := h.same hregistering.admitted hregistering.trace
    obtain ⟨before, after, htrace⟩ := List.append_of_mem hevent
    exact (hregistering.callUnder hrun htrace hcall).call

end Checked

/-- Of the requests of one process that present a nullifier at most one is granted. -/
theorem presented_once {s : Shared} {actions : List (Action Task Env)} {i j : Nat}
    {thi thj : GifterThread} {bufi bufj : List UInt8} {authType nul : String}
    (hthi : (gifter.run (Pool.initial s) actions).threads i = some thi)
    (hthj : (gifter.run (Pool.initial s) actions).threads j = some thj)
    (htaski : thi.task = .handle bufi) (htaskj : thj.task = .handle bufj)
    (hepoch : thi.epoch = thj.epoch) (hpresentsi : Presents bufi thi.trace authType nul)
    (hpresentsj : Presents bufj thj.trace authType nul) (hgrantedi : Granted bufi thi.trace)
    (hgrantedj : Granted bufj thj.trace) : i = j := by
  have hholds : ∀ {id : Nat} {th : GifterThread} {buf : List UInt8},
      (gifter.run (Pool.initial s) actions).threads id = some th → th.task = .handle buf →
      Presents buf th.trace authType nul → Granted buf th.trace →
      Holds th.trace (replayKey authType (normalize nul)) := by
    intro id th buf hth htask hpresents hgranted
    obtain ⟨q, hrun, -⟩ := handle_thread (gifter.wellTraced_run s actions) hth htask
    have hformed := hpresents.wellFormed hgranted.authorised
    exact hgranted.holds hrun (hpresents.carries hformed)
  exact (exclusive_run s actions).unique i j thi thj _ hthi hthj hepoch
    (hholds hthi htaski hpresentsi hgrantedi) (hholds hthj htaskj hpresentsj hgrantedj)

variable [Crypto]

/-- What holds of the memberships a process gifts to cards and addresses.  A call of
`register_member` under either type is for the commitment that the card, or the
address, signed; of the requests with one card's key, and of those signed by one
address, at most one is granted. -/
structure OneMembership (P : GifterPool) : Prop where
  attested : ∀ id th buf req cfg, Handling P keycardAttestAuthType id th buf req cfg →
    ∀ event ∈ th.trace, IsRegisterMember event.1 →
      event.1 = registerCall cfg req.identityCommitment (effectiveRate cfg req) ∧
      ∃ verifier config trustedCas att,
        lookupField keycardAttestAuthType cfg.authVerifiers = some (verifier, config) ∧
        KeycardAuth.parseTrustedCas config = .ok trustedCas ∧
        KeycardAuth.Attests trustedCas req.authenticationPayload req.identityCommitment att
  signed : ∀ id th buf req cfg, Handling P ethAllowlistAuthType id th buf req cfg →
    ∀ event ∈ th.trace, IsRegisterMember event.1 →
      event.1 = registerCall cfg req.identityCommitment (effectiveRate cfg req) ∧
      ∃ verifier config address items item entry,
        lookupField ethAllowlistAuthType cfg.authVerifiers = some (verifier, config) ∧
        EthAuth.recoverSigner req.identityCommitment req.authenticationPayload =
          .ok address ∧
        (config.bind (Value.get · "allowlist")).bind Value.asArray = some items ∧
        item ∈ items ∧ item.asStr = some entry ∧ toLowercase entry = address
  oneCard : ∀ i j thi thj bufi bufj reqi reqj cfgi cfgj atti attj,
    Handling P keycardAttestAuthType i thi bufi reqi cfgi →
    Handling P keycardAttestAuthType j thj bufj reqj cfgj → thi.epoch = thj.epoch →
    parseAttestation reqi.authenticationPayload = .ok atti →
    parseAttestation reqj.authenticationPayload = .ok attj →
    atti.identPub = attj.identPub →
    Granted bufi thi.trace → Granted bufj thj.trace → i = j
  oneAddress : ∀ i j thi thj bufi bufj reqi reqj cfgi cfgj address,
    Handling P ethAllowlistAuthType i thi bufi reqi cfgi →
    Handling P ethAllowlistAuthType j thj bufj reqj cfgj → thi.epoch = thj.epoch →
    EthAuth.recoverSigner reqi.identityCommitment reqi.authenticationPayload = .ok address →
    EthAuth.recoverSigner reqj.identityCommitment reqj.authenticationPayload = .ok address →
    Granted bufi thi.trace → Granted bufj thj.trace → i = j

section Vectors

variable {P : GifterPool} {id : Nat} {th : GifterThread} {buf : List UInt8}
  {req : RlnGifterRequest} {cfg : ServerCfg}

theorem Handling.attests
    (hanswered : AnsweredBy keycardAttestAuthType KeycardAuth.verifyAuth P)
    (h : Handling P keycardAttestAuthType id th buf req cfg)
    (hauthorised : Authorised buf th.trace) :
    ∃ verifier config trustedCas att,
      lookupField keycardAttestAuthType cfg.authVerifiers = some (verifier, config) ∧
      KeycardAuth.parseTrustedCas config = .ok trustedCas ∧
      KeycardAuth.Attests trustedCas req.authenticationPayload req.identityCommitment att ∧
      Presents buf th.trace keycardAttestAuthType
        (hexEncode (nullifier att.identPub).toList) := by
  obtain ⟨verifier, config, trustedCas, nul, hlookup, htrusted, hnul, hpresents⟩ :=
    h.checked KeycardAuth.keycardVector KeycardAuth.parseTrustedCas
      KeycardAuth.checkAttestation rfl (fun hsame => hsame.configEntries) hanswered hauthorised
  obtain ⟨att, hattests, rfl⟩ := KeycardAuth.checkAttestation_ok hnul
  exact ⟨verifier, config, trustedCas, att, hlookup, htrusted, hattests, hpresents⟩

theorem Handling.recovers
    (hanswered : AnsweredBy ethAllowlistAuthType EthAuth.verifyAuth P)
    (h : Handling P ethAllowlistAuthType id th buf req cfg)
    (hauthorised : Authorised buf th.trace) :
    ∃ verifier config allowlist address,
      lookupField ethAllowlistAuthType cfg.authVerifiers = some (verifier, config) ∧
      EthAuth.parseAllowlist config = .ok allowlist ∧ address ∈ allowlist ∧
      EthAuth.recoverSigner req.identityCommitment req.authenticationPayload = .ok address ∧
      Presents buf th.trace ethAllowlistAuthType address := by
  obtain ⟨verifier, config, allowlist, address, hlookup, hallowlist, haddress, hpresents⟩ :=
    h.checked EthAuth.ethAllowlistVector EthAuth.parseAllowlist EthAuth.checkSigner rfl
      (fun hsame => hsame.configEntries) hanswered hauthorised
  obtain ⟨hrecovered, hlisted⟩ := EthAuth.checkSigner_ok haddress
  exact ⟨verifier, config, allowlist, address, hlookup, hallowlist, hlisted, hrecovered,
    hpresents⟩

end Vectors

/-- One card, one membership; one address, one membership; bound to the commitment. -/
theorem one_membership (s : Shared) (actions : List (Action Task Env))
    (hkeycard : AnsweredBy keycardAttestAuthType KeycardAuth.verifyAuth
      (gifter.run (Pool.initial s) actions))
    (heth : AnsweredBy ethAllowlistAuthType EthAuth.verifyAuth
      (gifter.run (Pool.initial s) actions)) :
    OneMembership (gifter.run (Pool.initial s) actions) := by
  constructor
  · intro id th buf req cfg h event hevent hcall
    obtain ⟨hauthorised, heq⟩ := h.registers hevent hcall
    obtain ⟨verifier, config, trustedCas, att, hlookup, htrusted, hattests, -⟩ :=
      h.attests hkeycard hauthorised
    exact ⟨heq, verifier, config, trustedCas, att, hlookup, htrusted, hattests⟩
  · intro id th buf req cfg h event hevent hcall
    obtain ⟨hauthorised, heq⟩ := h.registers hevent hcall
    obtain ⟨verifier, config, allowlist, address, hlookup, hallowlist, hlisted, hrecovered,
      -⟩ := h.recovers heth hauthorised
    obtain ⟨items, item, entry, hitems, hitem, hentry, hlower⟩ :=
      EthAuth.mem_parseAllowlist hallowlist hlisted
    exact ⟨heq, verifier, config, address, items, item, entry, hlookup, hrecovered, hitems,
      hitem, hentry, hlower⟩
  · intro i j thi thj bufi bufj reqi reqj cfgi cfgj atti attj hi hj hepoch hatti hattj hpub
      hgrantedi hgrantedj
    obtain ⟨-, -, trustedi, atti', -, -, hattestsi, hpresentsi⟩ :=
      hi.attests hkeycard hgrantedi.authorised
    obtain ⟨-, -, trustedj, attj', -, -, hattestsj, hpresentsj⟩ :=
      hj.attests hkeycard hgrantedj.authorised
    obtain rfl := Except.ok.inj (hatti.symm.trans hattestsi.parsed)
    obtain rfl := Except.ok.inj (hattj.symm.trans hattestsj.parsed)
    rw [hpub] at hpresentsi
    exact presented_once hi.thread hj.thread hi.task hj.task hepoch hpresentsi hpresentsj
      hgrantedi hgrantedj
  · intro i j thi thj bufi bufj reqi reqj cfgi cfgj address hi hj hepoch haddressi haddressj
      hgrantedi hgrantedj
    obtain ⟨-, -, -, addressi, -, -, -, hrecoveredi, hpresentsi⟩ :=
      hi.recovers heth hgrantedi.authorised
    obtain ⟨-, -, -, addressj, -, -, -, hrecoveredj, hpresentsj⟩ :=
      hj.recovers heth hgrantedj.authorised
    obtain rfl := Except.ok.inj (haddressi.symm.trans hrecoveredi)
    obtain rfl := Except.ok.inj (haddressj.symm.trans hrecoveredj)
    exact presented_once hi.thread hj.thread hi.task hj.task hepoch hpresentsi hpresentsj
      hgrantedi hgrantedj

end Memberships

section Asked

variable [SerdeJson] [CaseTables] {buf : List UInt8} {trace : Trace} {req : RlnGifterRequest}
  {cfg : ServerCfg} {asked called last : Trace}

/-- A request asks its verifier before it registers. -/
theorem Registering.mem_asked (h : Registering buf trace req cfg asked called last)
    {verifier text : String} {outcome : Outcome}
    (hmem : ⟨verifyCall verifier text, outcome⟩ ∈ trace) :
    ⟨verifyCall verifier text, outcome⟩ ∈ asked := by
  rw [h.trace, List.mem_cons, List.mem_append, List.mem_append] at hmem
  rcases hmem with heq | hmem | hmem | hmem
  · cases heq
  · exact hmem
  · obtain ⟨q, hregister⟩ := h.registering
    rcases (only_after register_only hregister).1 _ hmem with (hlookup | heq | heq) | heq
    · exact absurd hlookup id
    · injection heq with _ hmethod
      exact absurd hmethod (by decide)
    · cases heq
    · injection heq with _ hmethod
      exact absurd hmethod (by decide)
  · obtain ⟨key, heq | heq⟩ := h.settling _ hmem
    · cases heq
    · cases heq

omit [CaseTables] in
/-- A call of a verifier says what it is about. -/
theorem verifyCall_inj {verifier verifier' text text' : String}
    (h : verifyCall verifier text = verifyCall verifier' text') :
    verifier = verifier' ∧ text = text' := by
  injection h with hverifier _ hargs
  have hreads := (SerdeJson.toText_reads (.array [.string text])).1 rfl
  rw [hargs, (SerdeJson.toText_reads (.array [.string text'])).1 rfl] at hreads
  have hitems := congrArg Value.asArray (Except.ok.inj hreads)
  rw [Value.asArray_array, Value.asArray_array] at hitems
  cases hitems
  exact ⟨hverifier, rfl⟩

/-- What a request that registers asked its verifier, and was told. -/
theorem Registering.judged (h : Registering buf trace req cfg asked called last)
    {verifier text : String} {outcome : Outcome}
    (hmem : ⟨verifyCall verifier text, outcome⟩ ∈ trace) :
    ∃ config reply verdict,
      lookupField (authTypeOf req) cfg.authVerifiers = some (verifier, config) ∧
      SerdeJson.structText (verifyRequest req (authTypeOf req) (effectiveRate cfg req)
        config).entries = .ok text ∧
      moduleResult verifyMethod outcome.seen = .ok reply ∧ parseVerdict reply = .ok verdict := by
  obtain ⟨key, hauth⟩ := h.authorised
  obtain ⟨verified, verifier', verdict, hverified, hmem⟩ : ∃ verified verifier' verdict,
      Verified cfg req (authTypeOf req) (effectiveRate cfg req) verified verifier' verdict ∧
      ⟨verifyCall verifier text, outcome⟩ ∈ verified := by
    have hasked := h.mem_asked hmem
    rcases authenticate_ok hauth with ⟨-, rfl, -⟩ | ⟨verifier', verdict, hverified, -⟩ |
      ⟨verified, verifier', verdict, _, hverified, -, -, rfl, -⟩
    · cases hasked
    · exact ⟨asked, verifier', verdict, hverified, hasked⟩
    · rcases List.mem_append.mp hasked with hasked | hasked
      · exact ⟨verified, verifier', verdict, hverified, hasked⟩
      · cases List.mem_singleton.mp hasked
  obtain ⟨config, json, found, outcome', reply, hlookup, htext, hfound, rfl, hresult, hparse,
    -⟩ := hverified
  rcases List.mem_append.mp hmem with hmem | hmem
  · exact absurd (hfound _ hmem) id
  · obtain ⟨hcall, houtcome⟩ := Sigma.mk.inj_iff.mp (List.mem_singleton.mp hmem)
    obtain ⟨rfl, rfl⟩ := verifyCall_inj hcall
    cases houtcome
    exact ⟨config, reply, verdict, hlookup, htext, hresult, hparse⟩

/-- A request that is granted at once, alone in its process. -/
abbrev grantRun (s : Shared) (buf : List UInt8) (nul : String) : GifterPool :=
  gifter.run (Pool.initial s) (System.solo 0 (.handle buf) (grantEnvs nul))

theorem granted_alone {s : Shared} {nul : String}
    (h : Accepting buf req cfg s (replyWith (acceptance nul)) nul)
    (hfresh : ∀ key, ¬ IsConsumed s.consumed key) (hrln : rlnModule ∈ s.clients)
    (hpath : cfg.nullifiersPath ≠ "") :
    ∃ th, Handling (grantRun s buf nul) (authTypeOf req) 0 th buf req cfg ∧
      Granted buf th.trace ∧ (∃ event ∈ th.trace, IsRegisterMember event.1) ∧
      ∀ id th', (grantRun s buf nul).threads id = some th' → th' = th := by
  obtain ⟨trace, hdoes, hpresents, hgranted, hcall, -⟩ := handle_granted h (hfresh _) hrln
    hpath (moduleResult_registration _ 5) (moduleResult_confirmation _ 7)
    (confirmedLeaf_confirmation 7)
  have hrun : grantRun s buf nul = System.put (Pool.initial s) _ 0
      ⟨.handle buf, 0, _, trace⟩ := run_task rfl hdoes
  have hconfigured : Configured cfg (grantRun s buf nul) :=
    configured_run ⟨h.server, hfresh⟩ (System.forall_mem_solo.mpr ⟨trivial, fun _ _ => trivial⟩)
  obtain ⟨req', cfg', asked, rest, verifier, verdict, hreq', htrace, hverified, -⟩ := hpresents
  obtain rfl := h.admitted.unique hreq'
  rw [hrun] at hconfigured ⊢
  have hlocked : ⟨.lockServer, some cfg'⟩ ∈ trace := by
    rw [htrace]
    exact List.mem_cons_self
  cases hconfigured.locked 0 _ _ (System.put_same _ _ _ _) hlocked
  have hclosed : cfg.authVerifiers ≠ [] := by
    intro hopen
    obtain ⟨entry, hlookup⟩ := hverified.lookup
    rw [hopen] at hlookup
    cases hlookup
  refine ⟨⟨.handle buf, 0, _, trace⟩, ⟨System.put_same _ _ _ _, rfl, h.admitted, rfl,
    ⟨_, htrace⟩, hclosed⟩, hgranted, ⟨_, hcall, rfl, rfl⟩, ?_⟩
  intro id th' hth'
  rcases System.put_threads hth' with ⟨-, rfl⟩ | ⟨-, hnone⟩
  · rfl
  · cases hnone

/-- It was told one verdict, the one it was accepted with, and that of itself. -/
theorem told_alone {s : Shared} {nul authType : String} {id : Nat} {th : GifterThread}
    (h : Handling (grantRun s buf nul) authType id th buf req cfg)
    (hcall : ∃ event ∈ th.trace, IsRegisterMember event.1)
    {verifier text : String} {outcome : Outcome} {v : Value}
    (hmem : ⟨verifyCall verifier text, outcome⟩ ∈ th.trace)
    (hresult : moduleResult verifyMethod outcome.seen = .ok v) :
    v = acceptance nul ∧ ∃ config,
      lookupField authType cfg.authVerifiers = some (verifier, config) ∧
      SerdeJson.structText (verifyRequest req authType (effectiveRate cfg req)
        config).entries = .ok text := by
  obtain ⟨q, hrun, -⟩ := handle_thread (gifter.wellTraced_run s _) h.thread h.task
  obtain ⟨event, hevent, hregister⟩ := hcall
  rcases hrun.registering_cases with hnone | ⟨req', cfg', asked, called, last, hregistering⟩
  · exact absurd hregister (hnone event hevent)
  · obtain ⟨rfl, rfl⟩ := h.same hregistering.admitted hregistering.trace
    obtain ⟨config, reply, verdict, hlookup, htext, hreply, hparse⟩ := hregistering.judged hmem
    rw [h.authType] at hlookup htext
    refine ⟨?_, config, hlookup, htext⟩
    rw [hresult] at hreply
    cases hreply
    obtain ⟨past, action, future, hactions, hperformed⟩ := gifter.exists_performed h.thread hmem
    obtain ⟨env, found, e, next, rfl, -, -, -, heq, -⟩ := gifter.performed_cases hperformed
    obtain ⟨rfl, hanswer⟩ := Sigma.mk.inj_iff.mp heq
    obtain rfl : outcome = env.outcome := eq_of_heq hanswer
    have henv : env ∈ grantEnvs nul := by
      have hact : Action.act id env ∈ System.solo 0 (Task.handle buf) (grantEnvs nul) := by
        rw [hactions]
        simp
      exact (System.mem_solo.mp hact).2
    simp only [grantEnvs, registerEnvs, presentEnvs, callEnvs, List.cons_append,
      List.nil_append, List.mem_cons, List.not_mem_nil, or_false] at henv
    have hcases : env.outcome = quiet.outcome ∨ env.outcome = replyWith (acceptance nul) ∨
        env.outcome = replyWith (registration 5) ∨
        env.outcome = replyWith (confirmation 7) := by
      rcases henv with rfl | rfl | rfl | rfl | rfl | rfl | rfl | rfl | rfl | rfl | rfl | rfl |
        rfl | rfl | rfl <;> simp
    rcases hcases with houtcome | houtcome | houtcome | houtcome <;> rw [houtcome] at hresult
    · cases hresult
    · rw [acceptance, moduleResult_replyWith (Verdict.plain_entries _)] at hresult
      exact (Except.ok.inj hresult).symm
    · rw [moduleResult_registration] at hresult
      cases hresult
      exact absurd hparse (parseVerdict_ne_ok (by simp [Value.object, Value.get_insert]))
    · rw [moduleResult_confirmation] at hresult
      cases hresult
      exact absurd hparse (parseVerdict_ne_ok (by simp [Value.object, Value.get_insert]))

end Asked

namespace Wallet

open Mint (toBytes length_toBytes)

/-- The public key of a wallet, uncompressed. -/
def publicKey : List UInt8 :=
  0x04 ::
    (toBytes 0x24653eac434488002cc06bbfb7f10fe18991e35f9fe4302dbea6d2353dc0ab1c 32 ++
      toBytes 0x119fc5009a032aa9fe47f5e149bb8442f71f884ccb516590686d8ff6ab91c613 32)

/-- The hash of the key, which ends in the wallet's address. -/
def keyHash : Bytes 32 :=
  ⟨toBytes 0xd885744b9cb252077d755ad317c5185167401ed00cf5f5b2fc97d9bbfdb7d025 32,
    length_toBytes _ _⟩

def address : String := "0x17c5185167401ed00cf5f5b2fc97d9bbfdb7d025"

def commitment : List UInt8 := List.replicate 32 0x11

/-- The message that is signed for the commitment. -/
def message : List UInt8 :=
  let hexs := utf8 (hexEncode commitment)
  utf8 ("\x19Ethereum Signed Message:\n" ++ toString hexs.length) ++ hexs

def digest : Bytes 32 :=
  ⟨toBytes 0xfc7db24fd047b2716840e21bbd8a37ea6dd13d19976f2391d73dc8863b421d8a 32,
    length_toBytes _ _⟩

/-- The wallet's signature over the digest, whose recovery id is 0. -/
def signature : List UInt8 :=
  toBytes 0x99934def86725ed68b7d9ff15f16aa744b7b090e663fc9959d250346ec354162 32 ++
    toBytes 0x55b64fd444fea08d428e4bbf32a1531b9b846be80bdd0589ee5a6dae296e6c5b 32

/-- The hashes of the key and of the message; no other is known. -/
def hash (bytes : List UInt8) : Bytes 32 :=
  if bytes = publicKey.drop 1 then keyHash
  else if bytes = message then digest
  else List.Vector.replicate 32 0

/-- The signature recovers to the key; no other does. -/
def recover (prehash sig : List UInt8) (recid : UInt8) : Except String (List UInt8) :=
  if prehash = digest.toList ∧ sig = signature ∧ recid = 0 then .ok publicKey
  else .error "signature error"

scoped instance : Crypto where
  Signature := List UInt8
  VerifyingKey := List UInt8
  RecoveryId := UInt8
  sha256 _ := List.Vector.replicate 32 0
  keccak256 := hash
  fromDer _ := .error "signature error"
  fromSlice bytes := if bytes.length = 64 then .ok bytes else .error "signature error"
  normalizeS _ := none
  fromByte b := if b < 4 then some b else none
  recoverFromPrehash := recover
  fromSec1Bytes _ := .error "signature error"
  verifyPrehash _ _ _ := false
  toEncodedPoint key _ := key

theorem length_signature : signature.length = 64 := by
  rw [signature, List.length_append, length_toBytes, length_toBytes]

theorem hash_message : hash message = digest := by
  have hne : message ≠ publicKey.drop 1 := by
    intro heq
    have hlength := congrArg List.length heq
    rw [message, List.length_append, utf8_hexEncode_length, publicKey, List.drop_one,
      List.tail_cons, List.length_append, length_toBytes, length_toBytes] at hlength
    revert hlength
    decide +kernel
  rw [hash, if_neg hne, if_pos rfl]

theorem recoverSigner_signature :
    EthAuth.recoverSigner commitment (signature ++ [27]) = .ok address := by
  have hlength : (signature ++ [27]).length = 65 := by
    rw [List.length_append, length_signature]
    rfl
  have hlast : (signature ++ [27])[64] = 27 := by
    rw [List.getElem_append_right (by rw [length_signature])]
    simp [length_signature]
  have hslice : (Crypto.fromSlice ((signature ++ [27]).take 64) : Except String _) =
      .ok signature := by
    rw [← length_signature, List.take_left]
    exact if_pos length_signature
  have hdigest : EthAuth.eip191Digest commitment = digest := hash_message
  have hrecover : recover digest.toList signature 0 = .ok publicKey := if_pos ⟨rfl, rfl, rfl⟩
  have hkey : hash (publicKey.drop 1) = keyHash := if_pos rfl
  have haddress : "0x" ++ hexEncode (keyHash.toList.drop 12) = address := by
    decide +kernel
  rw [EthAuth.recoverSigner, dif_pos hlength, hdigest]
  have hbyte : (if (27 : UInt8) ≤ 27 then (27 : UInt8) - 27 else 27) = 0 := by decide
  simp only [hlast, hslice, hbyte]
  have hrecid : (Crypto.fromByte 0 : Option Crypto.RecoveryId) = some (0 : UInt8) := rfl
  rw [hrecid]
  change ((recover digest.toList signature 0).mapError ("recovery failed: " ++ ·) >>= fun vk =>
    Except.ok ("0x" ++ hexEncode ((hash (vk.drop 1)).toList.drop 12))) = .ok address
  rw [hrecover]
  change Except.ok ("0x" ++ hexEncode ((hash (publicKey.drop 1)).toList.drop 12)) = _
  rw [hkey, haddress]

/-- The allowlist has the address in capitals. -/
def allowlistConfig : Value :=
  .object [("allowlist", .array [.string "0x17C5185167401ED00CF5F5B2FC97D9BBFDB7D025"])]

def ethModule : String := "eth_auth_module"

def servedWallets : ServerCfg :=
  ⟨"config", "wallet", [(ethAllowlistAuthType, ethModule, some allowlistConfig)], "used", 100⟩

def walletRequest : RlnGifterRequest where
  requestId := "req-1"
  authenticationType := utf8 ethAllowlistAuthType
  authenticationPayload := signature ++ [27]
  identityCommitment := commitment

open Platform

theorem parseAllowlist_config : EthAuth.parseAllowlist (some allowlistConfig) = .ok [address] := by
  have hitems : ((some allowlistConfig).bind (Value.get · "allowlist")).bind Value.asArray =
      some [.string "0x17C5185167401ED00CF5F5B2FC97D9BBFDB7D025"] := by
    simp [allowlistConfig, Value.object, Value.get_insert]
  have hlower : EthAuth.allowed (some "0x17C5185167401ED00CF5F5B2FC97D9BBFDB7D025") =
      .ok address := by
    decide +kernel
  rw [EthAuth.parseAllowlist, configEntries, hitems]
  simp only [List.mapM_cons, List.mapM_nil, Value.asStr_string, hlower]
  rfl

theorem checkSigner_signature : EthAuth.checkSigner [address] (signature ++ [27]) commitment =
      .ok address := by
  rw [EthAuth.checkSigner, recoverSigner_signature]
  exact if_pos (List.contains_iff_mem.mpr (List.mem_singleton_self _))

theorem verify_walletRequest (rate : UInt64) :
    EthAuth.verify (verifyRequest walletRequest ethAllowlistAuthType rate
      (some allowlistConfig)) = .ok (.accept (some address)) := by
  rw [EthAuth.verify]
  apply verifyWith_of_check parseAllowlist_config (List.cons_ne_nil _ _) _ _
    checkSigner_signature
  · rw [verifyRequest, trim0x_hexEncode, hexDecode_hexEncode]
    rfl
  · rw [verifyRequest, trim0x_hexEncode, hexDecode_hexEncode]
    rfl

/-- The state a gifter of wallets serves from. -/
def servingWallets : Shared where
  server := some servedWallets
  clients := insert ethModule {rlnModule}

/-- The choices of a request that is accepted, registered and confirmed at once. -/
def walletEnvs : List Env :=
  quiet :: (callEnvs (replyWith (acceptance address)) ++ [quiet] ++
    (callEnvs (replyWith (registration 5)) ++ callEnvs (replyWith (confirmation 7)) ++ [quiet]))

theorem authTypeOf_walletRequest : authTypeOf walletRequest = ethAllowlistAuthType :=
  fromUtf8Lossy_utf8 _

theorem accepting_walletRequest : Accepting walletRequest.encode walletRequest servedWallets
    servingWallets (replyWith (acceptance address)) address where
  admitted := ⟨RlnGifterRequest.decode_encode_of_fits _ (by decide +kernel), rfl⟩
  server := rfl
  accepted := by
    refine ⟨ethModule, some allowlistConfig, acceptance address, none, ?_,
      Finset.mem_insert_self _ _,
      moduleResult_replyWith (Verdict.plain_entries _) verifyMethod, parseVerdict_entries _⟩
    rw [authTypeOf_walletRequest]
    rfl
  formed := by decide +kernel

theorem plain_walletRequest (rate : UInt64) :
    (Value.object (verifyRequest walletRequest ethAllowlistAuthType rate
      (some allowlistConfig)).entries).tree.plain 127 = true := by
  apply Value.plain_object
  simp only [VerifyRequest.entries, verifyRequest, optEntry, List.cons_append, List.nil_append,
    List.forall_mem_cons, List.not_mem_nil, false_implies, implies_true, and_true]
  exact ⟨rfl, rfl, rfl, rfl, rfl⟩

/-- What the module of the wallets answers the request with. -/
theorem verifyAuth_walletRequest {text : String} {rate : UInt64}
    (htext : SerdeJson.structText (verifyRequest walletRequest ethAllowlistAuthType rate
      (some allowlistConfig)).entries = .ok text) :
    SerdeJson.fromStr (EthAuth.verifyAuth text) = .ok (acceptance address) := by
  have hfaithful : Faithful VerifyRequest.names (verifyRequest walletRequest
      ethAllowlistAuthType rate (some allowlistConfig)).entries :=
    faithful_of_plain (VerifyRequest.nodup_entries _) (plain_walletRequest rate)
  have hconfig : some allowlistConfig ≠ some .null := fun h =>
    nomatch congrArg (Option.map Value.tree) h
  have howner : answerOf [EthAuth.ethAllowlistVector] ethAllowlistAuthType
      (AuthVector.verify · (verifyRequest walletRequest ethAllowlistAuthType rate
        (some allowlistConfig))) = .ok (.accept (some address)) := by
    have htype : EthAuth.ethAllowlistVector.authType = ethAllowlistAuthType := rfl
    have hverify : EthAuth.ethAllowlistVector.verify = EthAuth.verify := rfl
    rw [answerOf_singleton, if_pos htype, hverify]
    exact verify_walletRequest rate
  rw [EthAuth.verifyAuth, dispatchVerify_of_faithful hconfig hfaithful htext,
    fromStr_reply_verdict]
  change Except.ok (replyValue ((answerOf [EthAuth.ethAllowlistVector] ethAllowlistAuthType
    (AuthVector.verify · (verifyRequest walletRequest ethAllowlistAuthType rate
      (some allowlistConfig)))).map Verdict.entries)) = _
  rw [howner]
  rfl

theorem handling_walletRequest :
    ∃ th, Handling (grantRun servingWallets walletRequest.encode address) ethAllowlistAuthType
        0 th walletRequest.encode walletRequest servedWallets ∧
      Granted walletRequest.encode th.trace ∧
      (∃ event ∈ th.trace, IsRegisterMember event.1) ∧
      ∀ id th', (grantRun servingWallets walletRequest.encode address).threads id = some th' →
        th' = th := by
  rw [← authTypeOf_walletRequest]
  exact granted_alone accepting_walletRequest (fun key => Finset.notMem_empty key)
    (Finset.mem_insert_of_mem (Finset.mem_singleton_self _)) (by decide)

/-- Whatever the request was told is what the module of the wallets says of it. -/
theorem answered_walletRequest {id : Nat} {th : GifterThread} {verifier text : String}
    {q : VerifyRequest} {outcome : Outcome} {v : Value}
    (hth : (grantRun servingWallets walletRequest.encode address).threads id = some th)
    (hmem : ⟨verifyCall verifier text, outcome⟩ ∈ th.trace)
    (htext : SerdeJson.structText q.entries = .ok text)
    (hresult : moduleResult verifyMethod outcome.seen = .ok v) :
    q.authType = ethAllowlistAuthType ∧
      SerdeJson.fromStr (EthAuth.verifyAuth text) = .ok v := by
  obtain ⟨th', hhandling, -, hcall, honly⟩ := handling_walletRequest
  obtain rfl := honly id th hth
  obtain ⟨rfl, config, hlookup, htext'⟩ := told_alone hhandling hcall hmem hresult
  have hconfig : lookupField ethAllowlistAuthType servedWallets.authVerifiers =
      some (ethModule, some allowlistConfig) := rfl
  rw [hconfig] at hlookup
  cases hlookup
  exact ⟨authType_of_text (plain_walletRequest _) htext' htext,
    verifyAuth_walletRequest htext'⟩

theorem answeredBy_keycard : AnsweredBy keycardAttestAuthType KeycardAuth.verifyAuth
    (grantRun servingWallets walletRequest.encode address) := by
  intro id th verifier q text outcome v hth hmem htype htext hresult
  obtain ⟨heth, -⟩ := answered_walletRequest hth hmem htext hresult
  exact absurd (heth.symm.trans htype) (by decide)

theorem answeredBy_eth : AnsweredBy ethAllowlistAuthType EthAuth.verifyAuth
    (grantRun servingWallets walletRequest.encode address) := by
  intro id th verifier q text outcome v hth hmem htype htext hresult
  exact (answered_walletRequest hth hmem htext hresult).2

end Wallet

open Platform Wallet in
/-- A wallet on the allowlist is granted its membership. -/
theorem one_membership_wallet :
    OneMembership (grantRun servingWallets walletRequest.encode address) ∧
      ∃ th, Handling (grantRun servingWallets walletRequest.encode address)
        ethAllowlistAuthType 0 th walletRequest.encode walletRequest servedWallets ∧
        Granted walletRequest.encode th.trace := by
  obtain ⟨th, hhandling, hgranted, -⟩ := handling_walletRequest
  exact ⟨one_membership servingWallets _ answeredBy_keycard answeredBy_eth, th, hhandling,
    hgranted⟩

end RlnGifter
