/-
What the code of the gifter does when a thread runs alone: calls that are
answered, and from them whole requests, from the read of the configuration to the
response.  Runs are put together from these.
-/
import RlnGifter.Requests
import RlnGifter.WireRoundTrip

namespace RlnGifter

open Program

section Arguments

/-- The arguments of a `serve` with one vector. -/
def serveArgs (config wallet path t verifier : String) : Value :=
  .object [("config", .string config), ("wallet", .string wallet),
    ("authVerifiers", .object [(t, .object [("module", .string verifier)])]),
    ("consumedNullifiersPath", .string path)]

/-- The configuration these arguments install. -/
def servedCfg (config wallet path t verifier : String) : ServerCfg :=
  ⟨config, wallet, [(t, verifier, none)], path, defaultMaxRate⟩

variable {config wallet path t verifier : String}

theorem plain_serveArgs : (serveArgs config wallet path t verifier).tree.plain 127 = true := by
  apply Value.plain_object
  simp only [List.forall_mem_cons, List.not_mem_nil, false_implies, implies_true, and_true]
  refine ⟨rfl, rfl, ?_, rfl⟩
  apply Value.plain_object
  simp only [List.forall_mem_cons, List.not_mem_nil, false_implies, implies_true, and_true]
  apply Value.plain_object
  simp only [List.forall_mem_cons, List.not_mem_nil, false_implies, implies_true, and_true]
  rfl

theorem pathOf_serveArgs : pathOf (serveArgs config wallet path t verifier) = path := by
  simp [pathOf, serveArgs, Value.object, Value.get_insert]

theorem view_object_singleton (v : Value) : (Value.object [(t, v)]).view = .object [(t, v)] :=
  rfl

theorem typesOf_serveArgs : typesOf (serveArgs config wallet path t verifier) = [t] := by
  have hget : (serveArgs config wallet path t verifier).get "authVerifiers" =
      some (.object [(t, .object [("module", .string verifier)])]) := by
    simp [serveArgs, Value.object, Value.get_insert]
  simp [typesOf, hget, view_object_singleton]

theorem fromStr_serveArgs [SerdeJson] : SerdeJson.fromStr
    (SerdeJson.toText (serveArgs config wallet path t verifier)) =
      .ok (serveArgs config wallet path t verifier) :=
  (SerdeJson.toText_reads _).1 plain_serveArgs

end Arguments

variable [CaseTables]

/-- The choices of an operation that makes none, or at which all goes well. -/
abbrev quiet : Env := {}

/-- The choices of a worker's call that is answered with `outcome`. -/
def callEnvs (outcome : Outcome) : List Env :=
  [quiet, quiet, quiet, { outcome := outcome }]

theorem execOp_findClient {s : Shared} {target : String} (h : target ∈ s.clients) :
    execOp quiet s (.findClient target) = (true, s) := by
  simp [execOp, h]

theorem clientPtr_does {s : Shared} {target : String} (h : target ∈ s.clients) :
    Does execOp (clientPtr .worker target) s [quiet, quiet]
      [⟨.findClient target, true⟩, ⟨.findClient target, true⟩] (.ret true) s :=
  .step (execOp_findClient h) (.step (execOp_findClient h) (.done _ _))

theorem onOwnerThread_worker_does (s : Shared) :
    Does execOp (onOwnerThread .worker) s [quiet] [⟨.readOwner, s.owner⟩] (.ret false) s := by
  have hfalse : (s.owner && decide (Caller.worker = Caller.owner)) = false := by simp
  rw [onOwnerThread, ← hfalse]
  exact .act (.done _ _)

theorem createClient_does {s : Shared} {target : String} (h : hasNul target = false) :
    Does execOp (createClient target) s [quiet] [⟨.createClient target, true⟩] (.ret true)
      { s with clients := insert target s.clients } := by
  rw [createClient, h]
  exact .act (.done _ _)

/-- The owner opens a client that is not there yet. -/
theorem ensureClient_does {s : Shared} {target : String} (howner : s.owner = true)
    (htarget : hasNul target = false) (hnew : target ∉ s.clients) :
    Does execOp (ensureClient .owner target) s [quiet, quiet, quiet]
      [⟨.findClient target, false⟩, ⟨.readOwner, true⟩, ⟨.createClient target, true⟩]
      (.ret (.ok ())) { s with clients := insert target s.clients } := by
  have hfind : execOp quiet s (.findClient target) = (false, s) := by simp [execOp, hnew]
  have hread : execOp quiet s .readOwner = (true, s) := by simp [execOp, howner]
  exact .step hfind (.step hread ((createClient_does htarget).bind (.done _ _)))

theorem ensureClient_found {s : Shared} {target : String} (h : target ∈ s.clients) :
    Does execOp (ensureClient .owner target) s [quiet] [⟨.findClient target, true⟩]
      (.ret (.ok ())) s :=
  .step (execOp_findClient h) (.done _ _)

variable [SerdeJson]

/-- What a call does: look the client up, look the owner up and call. -/
def callTrace (s : Shared) (target method args : String) (timeoutMs : Int)
    (outcome : Outcome) : Trace :=
  [⟨.findClient target, true⟩, ⟨.findClient target, true⟩, ⟨.readOwner, s.owner⟩,
    ⟨.invokeAsync target method args timeoutMs, outcome⟩]

omit [CaseTables] [SerdeJson] in
theorem callTrace_eq (s : Shared) (target method args : String) (timeoutMs : Int)
    (outcome : Outcome) :
    ∃ found : Trace, (∀ event ∈ found, Lookup event.1) ∧
      callTrace s target method args timeoutMs outcome =
        found ++ [⟨.invokeAsync target method args timeoutMs, outcome⟩] := by
  refine ⟨[⟨.findClient target, true⟩, ⟨.findClient target, true⟩,
    ⟨.readOwner, s.owner⟩], ?_, rfl⟩
  simp [Lookup]

theorem callJson_does {s : Shared} {target method : String} (args : Value)
    (timeoutMs : Int) (outcome : Outcome) (h : target ∈ s.clients)
    (hmethod : hasNul method = false) :
    Does execOp (callJson .worker target method args timeoutMs) s (callEnvs outcome)
      (callTrace s target method (SerdeJson.toText args) timeoutMs outcome)
      (.ret (asyncResult method outcome.seen)) s := by
  rw [callJson]
  refine (clientPtr_does h).bind ?_
  simp only [↓reduceIte, hmethod, hasNul_toText, Bool.or_self, Bool.false_eq_true]
  exact (onOwnerThread_worker_does s).bind (.act (.done _ _))

theorem callModuleJson_does {s : Shared} {target method : String} (args : Value)
    (timeoutMs : Int) (outcome : Outcome) (h : target ∈ s.clients)
    (hmethod : hasNul method = false) :
    Does execOp (callModuleJson .worker target method args timeoutMs) s (callEnvs outcome)
      (callTrace s target method (SerdeJson.toText args) timeoutMs outcome)
      (.ret (moduleResult method outcome.seen)) s := by
  have hall := (callJson_does args timeoutMs outcome h hmethod).bind
    (f := fun v => pure (v.bind (unwrapModule method))) (.done _ _)
  rw [List.append_nil, List.append_nil] at hall
  exact hall

/-- A task of the gifter that is started alone. -/
theorem run_task {P : GifterPool} {id : Nat} {task : Task} {s : Shared} {envs : List Env}
    {trace : Trace} {q : Prog Finished} (hnone : P.threads id = none)
    (h : Does execOp (taskBody task) P.shared envs trace q s) :
    gifter.run P (System.solo id task envs) = System.put P s id ⟨task, P.epoch, q, trace⟩ :=
  gifter.run_solo hnone h

section Register

variable {cfg : ServerCfg} {idc : List UInt8} {rate : UInt64} {s : Shared}

/-- What the call of `register_member` does. -/
abbrev registerTrace (cfg : ServerCfg) (idc : List UInt8) (rate : UInt64) (s : Shared)
    (registered : Outcome) : Trace :=
  callTrace s rlnModule "register_member"
    (SerdeJson.toText (.array [.string cfg.config, .string cfg.wallet,
      .string (hexEncode idc), .u64 rate])) registerTimeoutMs registered

theorem register_fails {registered : Outcome} {msg : String} (h : rlnModule ∈ s.clients)
    (hresult : moduleResult "register_member" registered.seen = .error msg) :
    Does execOp (register cfg idc rate) s (callEnvs registered)
      (registerTrace cfg idc rate s registered) (.ret (.error (.notSubmitted msg))) s := by
  have hcall := callModuleJson_does (.array [.string cfg.config, .string cfg.wallet,
    .string (hexEncode idc), .u64 rate]) registerTimeoutMs registered h
    (show hasNul "register_member" = false by decide)
  rw [hresult] at hcall
  have hall : Does execOp (register cfg idc rate) s (callEnvs registered ++ [])
      (registerTrace cfg idc rate s registered ++ []) (.ret (.error (.notSubmitted msg))) s :=
    hcall.bind (.done _ _)
  simpa using hall

/-- An accepted registration goes on with the confirmation loop. -/
theorem register_accepted {registered : Outcome} {reply : Value} (h : rlnModule ∈ s.clients)
    (hresult : moduleResult "register_member" registered.seen = .ok reply)
    {envs : List Env} {polls : Trace} {s' : Shared}
    {q : Prog (Except RegisterError MembershipAllocationSuccess)}
    (hconfirm : Does execOp (confirm cfg (hexEncode idc) (txHashBytes reply)
      (confirmBudget / confirmPoll)) s envs polls q s') :
    Does execOp (register cfg idc rate) s (callEnvs registered ++ envs)
      (registerTrace cfg idc rate s registered ++ polls) q s' := by
  have hcall := callModuleJson_does (.array [.string cfg.config, .string cfg.wallet,
    .string (hexEncode idc), .u64 rate]) registerTimeoutMs registered h
    (show hasNul "register_member" = false by decide)
  rw [hresult] at hcall
  exact hcall.bind hconfirm

/-- What the call of `get_membership` does. -/
abbrev pollTrace (cfg : ServerCfg) (idc : List UInt8) (s : Shared) (poll : Outcome) : Trace :=
  callTrace s rlnModule "get_membership"
    (SerdeJson.toText (.array [.string cfg.config, .string (hexEncode idc)]))
    getMembershipTimeoutMs poll

theorem confirm_confirmed {txHash : List UInt8} {pauses : Nat} {poll : Outcome} {m : Value}
    {leaf : UInt64} (h : rlnModule ∈ s.clients)
    (hresult : moduleResult "get_membership" poll.seen = .ok m)
    (hleaf : confirmedLeaf m = some leaf) :
    Does execOp (confirm cfg (hexEncode idc) txHash pauses) s (callEnvs poll)
      (pollTrace cfg idc s poll) (.ret (.ok (membership cfg txHash leaf))) s := by
  have hcall := callModuleJson_does (.array [.string cfg.config, .string (hexEncode idc)])
    getMembershipTimeoutMs poll h (show hasNul "get_membership" = false by decide)
  rw [hresult] at hcall
  have hturn : ∀ again, Does execOp (confirmTurn cfg (hexEncode idc) txHash again) s
      (callEnvs poll ++ []) (pollTrace cfg idc s poll ++ [])
      (.ret (.ok (membership cfg txHash leaf))) s := by
    intro again
    refine hcall.bind ?_
    simp only [Except.toOption, Option.bind_some, hleaf]
    exact .done _ _
  simp only [List.append_nil] at hturn
  cases pauses with
  | zero => exact hturn _
  | succ pauses => exact hturn _

end Register

section Handle

/-- The request in `buf` is taken up in `s`, and the verifier of its type, called
with `verdict` as its outcome, accepts it with the nullifier `nul`. -/
structure Accepting (buf : List UInt8) (req : RlnGifterRequest) (cfg : ServerCfg)
    (s : Shared) (verdict : Outcome) (nul : String) : Prop where
  admitted : Admitted buf req
  server : s.server = some cfg
  accepted : ∃ verifier verifierConfig reply reason,
    lookupField (authTypeOf req) cfg.authVerifiers = some (verifier, verifierConfig) ∧
    verifier ∈ s.clients ∧ moduleResult verifyMethod verdict.seen = .ok reply ∧
    parseVerdict reply = .ok ⟨true, reason, some nul⟩
  formed : wellFormed (normalize nul) = true

variable {buf : List UInt8} {req : RlnGifterRequest} {cfg : ServerCfg} {s : Shared}
  {verdict : Outcome} {nul : String}

/-- The key of an accepted request. -/
abbrev keyOf (req : RlnGifterRequest) (nul : String) : String :=
  replayKey (authTypeOf req) (normalize nul)

/-- The state once `key` is reserved. -/
def Shared.reserve (s : Shared) (key : String) : Shared :=
  { s with consumed := (reserveNullifier s.consumed key).2 }

/-- What authentication ends with, by whether the key was used. -/
def reservation (req : RlnGifterRequest) (key : String) (used : Bool) :
    Except RlnGifterResponse (Option String) :=
  if used then .error (usedResponse req key) else .ok (some key)

theorem authenticate_does (h : Accepting buf req cfg s verdict nul) {used : Bool}
    (hused : (reserveNullifier s.consumed (keyOf req nul)).1 = used) :
    ∃ (asked : Trace) (verifier : String) (reason : Option String),
      Verified cfg req (authTypeOf req) (effectiveRate cfg req) asked verifier
        ⟨true, reason, some nul⟩ ∧
      Does execOp (authenticateRequest cfg req) s (callEnvs verdict ++ [quiet])
        (asked ++ [⟨.reserve (keyOf req nul), used⟩])
        (.ret (reservation req (keyOf req nul) used)) (s.reserve (keyOf req nul)) := by
  obtain ⟨verifier, verifierConfig, reply, reason, hlookup, hclient, hresult, hverdict⟩ :=
    h.accepted
  obtain ⟨verifyJson, htext, -⟩ := SerdeJson.structText_reads _
    (verifyRequest req (authTypeOf req) (effectiveRate cfg req) verifierConfig).nodup_entries
  obtain ⟨found, hfound, htrace⟩ := callTrace_eq s verifier verifyMethod
    (SerdeJson.toText (.array [.string verifyJson])) authVerifyTimeoutMs verdict
  refine ⟨_, verifier, reason, ⟨verifierConfig, verifyJson, found, verdict, reply, hlookup,
    htext, hfound, htrace, hresult, hverdict, rfl⟩, ?_⟩
  have hopen : cfg.authVerifiers.isEmpty = false := by
    cases hverifiers : cfg.authVerifiers with
    | nil =>
        rw [hverifiers] at hlookup
        cases hlookup
    | cons entry rest => rfl
  have hcall := callModuleJson_does (.array [.string verifyJson]) authVerifyTimeoutMs verdict
    hclient (show hasNul verifyMethod = false by decide)
  rw [hresult] at hcall
  rw [authenticateRequest, authenticate]
  simp only [hopen, Bool.false_eq_true, ↓reduceIte, hlookup, htext]
  refine hcall.bind ?_
  simp only [judge, hverdict, Bool.not_true, Bool.false_eq_true, ↓reduceIte, reserveVerdict,
    h.formed]
  have hexec : execOp quiet s (.reserve (keyOf req nul)) =
      (used, s.reserve (keyOf req nul)) := by
    rw [← hused]
    rfl
  apply Does.step hexec
  cases used
  · exact .done _ _
  · exact .done _ _

/-- A request that is taken up goes on with its authentication. -/
theorem handle_does (hreq : Admitted buf req) (hserver : s.server = some cfg) {envs : List Env}
    {asked : Trace} {s' : Shared} {result : Except RlnGifterResponse (Option String)}
    (hauth : Does execOp (authenticateRequest cfg req) s envs asked (.ret result) s')
    {envs' : List Env} {rest : Trace} {s'' : Shared} {q : Prog RlnGifterResponse}
    (hrest : Does execOp (match result with
      | .error response => return response
      | .ok key => do
          let registered ← registerRequest cfg req
          settle cfg req key registered) s' envs' rest q s'') :
    Does execOp (handleRequest buf) s (quiet :: (envs ++ envs'))
      (⟨.lockServer, some cfg⟩ :: (asked ++ rest)) q s'' := by
  have hlock : execOp quiet s .lockServer = (some cfg, s) := by
    rw [← hserver]
    rfl
  rw [handleRequest]
  simp only [hreq.decoded, hreq.length, ne_eq, not_true_eq_false, ↓reduceIte]
  apply Does.step hlock
  exact hauth.bind hrest

/-- Any run of `handle_request` is one of its task. -/
theorem handle_task {envs : List Env} {trace : Trace} {s' : Shared}
    {q : Prog RlnGifterResponse} (h : Does execOp (handleRequest buf) s envs trace q s') :
    Does execOp (taskBody (.handle buf)) s envs trace
      (q >>= fun response => .ret (.responded response)) s' :=
  h.bind_left _

/-- A request whose key is used is refused. -/
theorem handle_used (h : Accepting buf req cfg s verdict nul)
    (hused : IsConsumed s.consumed (keyOf req nul)) :
    ∃ trace, Does execOp (taskBody (.handle buf)) s (quiet :: (callEnvs verdict ++ [quiet]))
        trace (.ret (.responded (usedResponse req (keyOf req nul))))
        (s.reserve (keyOf req nul)) ∧
      Presents buf trace (authTypeOf req) nul ∧
      ⟨.reserve (keyOf req nul), true⟩ ∈ trace := by
  obtain ⟨asked, verifier, reason, hverified, hauth⟩ :=
    authenticate_does h (reserveNullifier_fst.mpr hused)
  have hall := handle_task (handle_does h.admitted h.server hauth (.done _ _))
  rw [List.append_nil, List.append_nil] at hall
  exact ⟨_, hall, ⟨req, cfg, asked, [⟨.reserve (keyOf req nul), true⟩], verifier, _,
    h.admitted, rfl, hverified, rfl, rfl⟩, by simp⟩

/-- What is left of a request whose reservation is made: `register` and what
follows it. -/
theorem handle_reserved (h : Accepting buf req cfg s verdict nul)
    (hfree : ¬ IsConsumed s.consumed (keyOf req nul)) {envs : List Env} {rest : Trace}
    {s' : Shared} {q : Prog RlnGifterResponse}
    (hrest : Does execOp (do
      let registered ← registerRequest cfg req
      settle cfg req (some (keyOf req nul)) registered) (s.reserve (keyOf req nul)) envs rest
        q s') :
    ∃ asked : Trace, Does execOp (taskBody (.handle buf)) s
        (quiet :: (callEnvs verdict ++ [quiet] ++ envs))
        (⟨.lockServer, some cfg⟩ :: (asked ++ rest))
        (q >>= fun response => .ret (.responded response)) s' ∧
      (authenticateRequest cfg req).After asked (.ret (.ok (some (keyOf req nul)))) ∧
      ⟨.reserve (keyOf req nul), false⟩ ∈ asked ∧
      Presents buf (⟨.lockServer, some cfg⟩ :: (asked ++ rest)) (authTypeOf req) nul := by
  have hfalse : (reserveNullifier s.consumed (keyOf req nul)).1 = false := by
    rw [← Bool.not_eq_true, reserveNullifier_fst]
    exact hfree
  obtain ⟨asked, verifier, reason, hverified, hauth⟩ := authenticate_does h hfalse
  refine ⟨_, handle_task (handle_does h.admitted h.server hauth hrest), hauth.after, by simp,
    req, cfg, asked, ⟨.reserve (keyOf req nul), false⟩ :: rest, verifier, _, h.admitted, ?_,
    hverified, rfl, rfl⟩
  simp

/-- A request whose registration fails rolls its key back. -/
theorem handle_released (h : Accepting buf req cfg s verdict nul)
    (hfree : ¬ IsConsumed s.consumed (keyOf req nul)) (hrln : rlnModule ∈ s.clients)
    {registered : Outcome} {msg : String}
    (hresult : moduleResult "register_member" registered.seen = .error msg) :
    ∃ trace, Does execOp (taskBody (.handle buf)) s
        (quiet :: (callEnvs verdict ++ [quiet] ++ (callEnvs registered ++ [quiet]))) trace
        (.ret (.responded (settleResponse req (.error (.notSubmitted msg)))))
        { s with consumed := releaseNullifier (s.reserve (keyOf req nul)).consumed
                  (keyOf req nul) } ∧
      Presents buf trace (authTypeOf req) nul ∧
      ⟨registerCall cfg req.identityCommitment (effectiveRate cfg req), registered⟩ ∈ trace ∧
      ⟨.release (keyOf req nul), ()⟩ ∈ trace := by
  have hclient : rlnModule ∈ (s.reserve (keyOf req nul)).clients := hrln
  have hregister : Does execOp (registerRequest cfg req) (s.reserve (keyOf req nul))
    (callEnvs registered) _ _ _ := register_fails hclient hresult
  have hsettle : Does execOp (settle cfg req (some (keyOf req nul))
      (.error (.notSubmitted msg))) (s.reserve (keyOf req nul)) [quiet]
      [⟨.release (keyOf req nul), ()⟩]
      (.ret (settleResponse req (.error (.notSubmitted msg)))) _ := .act (.done _ _)
  obtain ⟨asked, hall, -, -, hpresents⟩ := handle_reserved h hfree (hregister.bind hsettle)
  exact ⟨_, hall, hpresents, by simp [callTrace], by simp⟩

/-- The state once `key` is appended to the file `path`. -/
def Shared.append (s : Shared) (path key : String) : Shared :=
  { s with files := Function.update s.files path
            (some ((s.files path).getD "" ++ nullifierLine key)) }

/-- A request that is registered and confirmed at once is granted, and appends its
key. -/
theorem handle_granted (h : Accepting buf req cfg s verdict nul)
    (hfree : ¬ IsConsumed s.consumed (keyOf req nul)) (hrln : rlnModule ∈ s.clients)
    (hpath : cfg.nullifiersPath ≠ "") {registered poll : Outcome} {reply m : Value}
    {leaf : UInt64}
    (hresult : moduleResult "register_member" registered.seen = .ok reply)
    (hpoll : moduleResult "get_membership" poll.seen = .ok m)
    (hleaf : confirmedLeaf m = some leaf) :
    ∃ trace, Does execOp (taskBody (.handle buf)) s
        (quiet :: (callEnvs verdict ++ [quiet] ++
          (callEnvs registered ++ callEnvs poll ++ [quiet]))) trace
        (.ret (.responded (settleResponse req
          (.ok (membership cfg (txHashBytes reply) leaf)))))
        ((s.reserve (keyOf req nul)).append cfg.nullifiersPath (keyOf req nul)) ∧
      Presents buf trace (authTypeOf req) nul ∧ Granted buf trace ∧
      ⟨registerCall cfg req.identityCommitment (effectiveRate cfg req), registered⟩ ∈ trace ∧
      ⟨.append cfg.nullifiersPath (keyOf req nul), true⟩ ∈ trace := by
  have hclient : rlnModule ∈ (s.reserve (keyOf req nul)).clients := hrln
  have hregister : Does execOp (registerRequest cfg req) (s.reserve (keyOf req nul))
      (callEnvs registered ++ callEnvs poll) _
      (.ret (.ok (membership cfg (txHashBytes reply) leaf))) _ :=
    register_accepted hclient hresult (confirm_confirmed hclient hpoll hleaf)
  have hsettle : Does execOp (settle cfg req (some (keyOf req nul))
      (.ok (membership cfg (txHashBytes reply) leaf))) (s.reserve (keyOf req nul)) [quiet]
      [⟨.append cfg.nullifiersPath (keyOf req nul), true⟩]
      (.ret (settleResponse req (.ok (membership cfg (txHashBytes reply) leaf))))
      ((s.reserve (keyOf req nul)).append cfg.nullifiersPath (keyOf req nul)) := by
    rw [settle_eq, settleOp_kept hpath (by simp)]
    refine .step ?_ (.done _ _)
    simp [execOp, writtenPart, Shared.append]
  obtain ⟨asked, hall, hauth, -, hpresents⟩ :=
    handle_reserved h hfree (hregister.bind hsettle)
  refine ⟨_, hall, hpresents, ⟨_, ⟨req, cfg, asked, _, _, _, h.admitted, rfl, hauth,
    hregister.after⟩, by simp⟩, by simp [callTrace], by simp⟩

/-- A request that is stopped right after its registration was accepted. -/
theorem handle_accepted (h : Accepting buf req cfg s verdict nul)
    (hfree : ¬ IsConsumed s.consumed (keyOf req nul)) (hrln : rlnModule ∈ s.clients)
    {registered : Outcome} {reply : Value}
    (hresult : moduleResult "register_member" registered.seen = .ok reply) :
    ∃ trace q, Does execOp (taskBody (.handle buf)) s
        (quiet :: (callEnvs verdict ++ [quiet] ++ callEnvs registered)) trace q
        (s.reserve (keyOf req nul)) ∧
      Presents buf trace (authTypeOf req) nul ∧
      ⟨registerCall cfg req.identityCommitment (effectiveRate cfg req), registered⟩ ∈ trace := by
  have hclient : rlnModule ∈ (s.reserve (keyOf req nul)).clients := hrln
  have hregister : Does execOp (registerRequest cfg req) (s.reserve (keyOf req nul))
      (callEnvs registered ++ []) _ _ _ :=
    register_accepted hclient hresult (.done _ _)
  rw [List.append_nil] at hregister
  obtain ⟨asked, hall, -, -, hpresents⟩ :=
    handle_reserved h hfree (hregister.bind_left _)
  exact ⟨_, _, hall, hpresents, by simp [callTrace]⟩

end Handle

section Serve

/-- The state once the owner and the clients of the context are there. -/
def Shared.ready (s : Shared) : Shared :=
  { s with owner := true, clients := insert rlnModule (insert libp2pModule s.clients) }

theorem contextReady_does (s : Shared) :
    ∃ trace, Does execOp (taskBody .contextReady) s [quiet, quiet, quiet] trace (.ret .ready)
      s.ready :=
  ⟨_, .act (.act (.act (.done _ _)))⟩

variable {config wallet path t verifier : String} {s : Shared}

/-- What is left of a `serve` that has merged the file. -/
def installed (cfg : ServerCfg) : Prog Finished := do
  perform (.storeServer cfg)
  return .served (← mount)

/-- `serve` with one vector, up to the merge of the file. -/
theorem serve_merging {envs : List Env} {called : Trace} {s' : Shared}
    (hverifier : verifier ≠ "")
    (hopened : Does execOp (ensureClient .owner verifier) s envs called (.ret (.ok ())) s') :
    Does execOp (taskBody (.serve (SerdeJson.toText (serveArgs config wallet path t verifier))))
      s envs called
      (.op (.merge path) fun _ => installed (servedCfg config wallet path t verifier)) s' := by
  have hget : (serveArgs config wallet path t verifier).get "authVerifiers" =
      some (.object [(t, .object [("module", .string verifier)])]) := by
    simp [serveArgs, Value.object, Value.get_insert]
  have hconfig : ((serveArgs config wallet path t verifier).get "config").bind Value.asStr =
      some config := by
    simp [serveArgs, Value.object, Value.get_insert]
  have hwallet : ((serveArgs config wallet path t verifier).get "wallet").bind Value.asStr =
      some wallet := by
    simp [serveArgs, Value.object, Value.get_insert]
  have hrate : (((serveArgs config wallet path t verifier).get "maxRateLimit").bind
      Value.asU64).getD defaultMaxRate = defaultMaxRate := by
    simp [serveArgs, Value.object, Value.get_insert]
  have hmodule : ((Value.object [("module", .string verifier)]).get "module").bind
      Value.asStr = some verifier := by
    simp [Value.object, Value.get_insert]
  have hvconfig : (Value.object [("module", .string verifier)]).get "config" = none := by
    simp [Value.object, Value.get_insert]
  have hpath := @pathOf_serveArgs config wallet path t verifier
  rw [pathOf] at hpath
  have hread : Does execOp (readVerifiers (serveArgs config wallet path t verifier)) s
      (envs ++ []) (called ++ []) (.ret (.ok [(t, verifier, none)])) s' := by
    rw [readVerifiers, hget, Option.map_some, view_object_singleton]
    simp only [openVerifiers, hmodule, Option.getD_some, if_neg hverifier, hvconfig]
    exact hopened.bind (.done _ _)
  rw [List.append_nil, List.append_nil] at hread
  have hserve : Does execOp (serve (SerdeJson.toText
      (serveArgs config wallet path t verifier))) s (envs ++ []) (called ++ [])
      (.op (.merge path) fun _ => do
        perform (.storeServer (servedCfg config wallet path t verifier))
        mount) s' := by
    rw [serve, fromStr_serveArgs]
    simp only [hconfig, hwallet]
    refine hread.bind ?_
    -- the operations carry these two, so they are replaced as a whole
    generalize (((serveArgs config wallet path t verifier).get
      "consumedNullifiersPath").bind Value.asStr).getD "" = path' at hpath
    generalize (((serveArgs config wallet path t verifier).get "maxRateLimit").bind
      Value.asU64).getD defaultMaxRate = rate at hrate
    subst hpath hrate
    exact .done _ _
  rw [List.append_nil, List.append_nil] at hserve
  exact hserve.bind_left _

/-- The state once the file `path` is merged. -/
def Shared.merge (s : Shared) (path : String) : Shared :=
  { s with consumed := mergeNullifiers s.consumed (loadNullifiers path (s.files path)) }

omit [SerdeJson] in
theorem execOp_merge (s : Shared) (path : String) :
    execOp quiet s (.merge path) = (loadNullifiers path (s.files path), s.merge path) :=
  rfl

/-- The state once `cfg` is installed and the protocol mounted. -/
def Shared.mounted (s : Shared) (cfg : ServerCfg) : Shared :=
  { s with server := some cfg, serving := true, workers := s.workers + 1 }

/-- Mounting the protocol, answered with success. -/
theorem callLibp2p_mount (howner : s.owner = true) (hlibp2p : libp2pModule ∈ s.clients) :
    ∃ trace, Does execOp (callLibp2p .owner "mountProtocol"
      (.array [.string rlnGifterCodec]) mountTimeoutMs) s (List.replicate 4 quiet) trace
      (.ret (.ok .null)) s := by
  have hfind := execOp_findClient hlibp2p
  have hread : execOp quiet s .readOwner = (true, s) := by simp [execOp, howner]
  have hptr : Does execOp (clientPtr .owner libp2pModule) s [quiet, quiet]
      [⟨.findClient libp2pModule, true⟩, ⟨.findClient libp2pModule, true⟩] (.ret true) s :=
    .step hfind (.step hfind (.done _ _))
  have hmethod : hasNul "mountProtocol" = false := by decide
  have hargs := hasNul_toText (.array [.string rlnGifterCodec])
  have hjson : Does execOp (callJson .owner libp2pModule "mountProtocol"
      (.array [.string rlnGifterCodec]) mountTimeoutMs) s ([quiet, quiet] ++ [quiet, quiet])
      ([⟨.findClient libp2pModule, true⟩, ⟨.findClient libp2pModule, true⟩] ++
        [⟨.readOwner, true⟩, ⟨.invoke libp2pModule "mountProtocol"
          (SerdeJson.toText (.array [.string rlnGifterCodec])) mountTimeoutMs, .ok none⟩])
      (.ret (.ok .null)) s := by
    rw [callJson]
    refine hptr.bind ?_
    simp only [↓reduceIte, hmethod, hargs, Bool.or_self, Bool.false_eq_true]
    exact .step hread (.act (.done _ _))
  exact ⟨_, hjson.bind (.done _ _)⟩

/-- Mounting the protocol where there is a client for the bridge. -/
theorem mount_does_alone (hserving : s.serving = false) (howner : s.owner = true)
    (hlibp2p : libp2pModule ∈ s.clients) :
    ∃ trace, Does execOp mount s (List.replicate 6 quiet) trace
      (.ret (.ok (.object [("mounted", .bool true)])))
      { s with serving := true, workers := s.workers + 1 } := by
  have hswap : execOp quiet s .swapServing = (false, { s with serving := true }) := by
    simp [execOp, hserving]
  obtain ⟨called, hcall⟩ := @callLibp2p_mount _ _ { s with serving := true } howner hlibp2p
  rw [mount]
  exact ⟨_, .step hswap (hcall.bind (.act (.done _ _)))⟩

/-- The first `serve` of a process mounts the protocol. -/
theorem installed_first (cfg : ServerCfg) (hserving : s.serving = false)
    (howner : s.owner = true) (hlibp2p : libp2pModule ∈ s.clients) :
    ∃ trace result, Does execOp (installed cfg) s (List.replicate 7 quiet) trace
      (.ret (.served result)) (s.mounted cfg) := by
  obtain ⟨mounted, hmount⟩ := @mount_does_alone _ _ { s with server := some cfg } hserving howner
    hlibp2p
  exact ⟨_, _, .act (hmount.bind (.done _ _))⟩

/-- The first `serve` of a process, as a whole. -/
theorem serve_first (hverifier : verifier ≠ "") (hnul : hasNul verifier = false)
    (hserving : s.serving = false) (howner : s.owner = true)
    (hlibp2p : libp2pModule ∈ s.clients) (hnew : verifier ∉ s.clients) :
    ∃ trace result, Does execOp
      (taskBody (.serve (SerdeJson.toText (serveArgs config wallet path t verifier)))) s
      (List.replicate 11 quiet) trace (.ret (.served result))
      ((Shared.merge { s with clients := insert verifier s.clients } path).mounted
        (servedCfg config wallet path t verifier)) := by
  obtain ⟨mounted, result, hmounted⟩ := @installed_first _ _
    (Shared.merge { s with clients := insert verifier s.clients } path)
    (servedCfg config wallet path t verifier) hserving howner
    (Finset.mem_insert_of_mem hlibp2p)
  exact ⟨_, result, (serve_merging hverifier (ensureClient_does howner hnul hnew)).trans
    (.step (execOp_merge _ path) hmounted)⟩

/-- The state a process with these files is in once it serves. -/
def servingShared (files : String → Option String) (config wallet path t verifier : String) :
    Shared where
  server := some (servedCfg config wallet path t verifier)
  consumed := mergeNullifiers none (loadNullifiers path (files path))
  serving := true
  clients := insert verifier (insert rlnModule (insert libp2pModule ∅))
  owner := true
  workers := 1
  files := files

/-- Starting to serve: the host calls `on_context_ready`, then `serve`. -/
def boot (id : Nat) (config wallet path t verifier : String) : List (Action Task Env) :=
  System.solo id .contextReady (List.replicate 3 quiet) ++
    System.solo (id + 1)
      (.serve (SerdeJson.toText (serveArgs config wallet path t verifier)))
      (List.replicate 11 quiet)

/-- A new process that starts to serve. -/
theorem run_boot {P : GifterPool} {files : String → Option String} {id : Nat}
    (hshared : P.shared = { files := files }) (hnone : P.threads id = none)
    (hnone' : P.threads (id + 1) = none) (hverifier : verifier ≠ "")
    (hnul : hasNul verifier = false) (hrln : verifier ≠ rlnModule)
    (hlibp2p : verifier ≠ libp2pModule) :
    ∃ ready served, gifter.run P (boot id config wallet path t verifier) =
        System.put (System.put P (Shared.ready { files := files }) id ready)
          (servingShared files config wallet path t verifier) (id + 1) served ∧
      ready.task = .contextReady ∧
      served.task = .serve (SerdeJson.toText (serveArgs config wallet path t verifier)) := by
  obtain ⟨trace, hready⟩ := contextReady_does { files := files }
  obtain ⟨trace', result, hserved⟩ := @serve_first _ _ config wallet path t verifier
    (Shared.ready { files := files }) hverifier hnul rfl rfl (by simp [Shared.ready])
    (by simp [Shared.ready, hrln, hlibp2p])
  refine ⟨⟨.contextReady, P.epoch, .ret .ready, trace⟩,
    ⟨.serve (SerdeJson.toText (serveArgs config wallet path t verifier)), P.epoch,
      .ret (.served result), trace'⟩, ?_, rfl, rfl⟩
  have hready' : Does execOp (taskBody .contextReady) P.shared (List.replicate 3 quiet) trace
      (.ret .ready) (Shared.ready { files := files }) := by
    rw [hshared]
    exact hready
  rw [boot, gifter.run_append, run_task hnone hready']
  exact run_task ((System.put_other (by omega)).trans hnone') hserved

end Serve

section Vouchers

/-- The outcome of a call that a module answers with `v`, as a string that carries
it. -/
def replyWith (v : Value) : Outcome :=
  ⟨.reply true (some (SerdeJson.toText (.string (SerdeJson.toText v)))), false⟩

omit [CaseTables] in
theorem moduleResult_replyWith {v : Value} (hplain : v.tree.plain 127 = true)
    (method : String) : moduleResult method (replyWith v).seen = .ok v := by
  have houter := (SerdeJson.toText_reads (.string (SerdeJson.toText v))).1 rfl
  have hinner := (SerdeJson.toText_reads v).1 hplain
  have hparse : parseOk (SerdeJson.toText (.string (SerdeJson.toText v))) =
      .string (SerdeJson.toText v) := by
    rw [parseOk, if_neg (SerdeJson.toText_ne_empty _), houter]
  simp only [moduleResult, replyWith, asyncResult, Option.getD_some, ↓reduceIte, hparse]
  change unwrapModule method (.string (SerdeJson.toText v)) = .ok v
  simp only [unwrapModule, Value.view_string, if_neg (SerdeJson.toText_ne_empty v), hinner]
  rfl

/-- The reply of a verifier that accepts with a nullifier. -/
def acceptance (nul : String) : Value :=
  .object (Verdict.accept (some nul)).entries

/-- The reply of `register_member`, with its estimate of the leaf. -/
def registration (leaf : UInt64) : Value :=
  .object [("leaf_index", .u64 leaf)]

/-- The reply of `get_membership` for a member. -/
def confirmation (leaf : UInt64) : Value :=
  .object [("registered", .bool true), ("leaf_index", .u64 leaf)]

omit [CaseTables] [SerdeJson] in
theorem confirmedLeaf_confirmation (leaf : UInt64) :
    confirmedLeaf (confirmation leaf) = some leaf := by
  simp [confirmedLeaf, confirmation, Value.object, Value.get_insert]

/-- A request of type `t` for the commitment of 32 sevens. -/
def requestOf (t : String) : RlnGifterRequest where
  requestId := "req-1"
  authenticationType := utf8 t
  identityCommitment := List.replicate 32 7

/-- The state serves type `t` through `verifier`, whose client is open. -/
structure Ready (t verifier : String) (cfg : ServerCfg) (s : Shared) : Prop where
  server : s.server = some cfg
  lookup : lookupField t cfg.authVerifiers = some (verifier, none)
  client : verifier ∈ s.clients
  rln : rlnModule ∈ s.clients

variable {t verifier nul : String} {cfg : ServerCfg} {s : Shared}

theorem Ready.accepting (h : Ready t verifier cfg s)
    (hfits : (requestOf t).encode.length < 2 ^ 64)
    (hformed : wellFormed (normalize nul) = true) :
    Accepting (requestOf t).encode (requestOf t) cfg s (replyWith (acceptance nul)) nul where
  admitted := ⟨RlnGifterRequest.decode_encode_of_fits _ hfits, rfl⟩
  server := h.server
  accepted := by
    refine ⟨verifier, none, acceptance nul, none, ?_, h.client,
      moduleResult_replyWith ?_ verifyMethod, parseVerdict_entries _⟩
    · rw [authTypeOf, requestOf, fromUtf8Lossy_utf8]
      exact h.lookup
    · apply Value.plain_object
      simp only [Verdict.accept, Verdict.entries, optEntry, Option.map_none, Option.map_some,
        List.append_nil, List.cons_append, List.nil_append, List.forall_mem_cons,
        List.not_mem_nil, false_implies, implies_true, and_true]
      exact ⟨rfl, rfl⟩
  formed := hformed

omit [SerdeJson] in
theorem ready_servingShared {files : String → Option String}
    {config wallet path : String} :
    Ready t verifier (servedCfg config wallet path t verifier)
      (servingShared files config wallet path t verifier) where
  server := rfl
  lookup := by simp [servedCfg, lookupField]
  client := by simp [servingShared]
  rln := by simp [servingShared]

/-- The choices of a request that presents `nul`, up to its reservation. -/
def presentEnvs (nul : String) : List Env :=
  quiet :: (callEnvs (replyWith (acceptance nul)) ++ [quiet])

/-- The choices of a request that presents `nul` and whose registration has this
outcome. -/
def registerEnvs (nul : String) (registered : Outcome) : List Env :=
  presentEnvs nul ++ callEnvs registered

/-- The choices of a request that presents `nul` and is registered and confirmed at
once. -/
def grantEnvs (nul : String) : List Env :=
  registerEnvs nul (replyWith (registration 5)) ++
    (callEnvs (replyWith (confirmation 7)) ++ [quiet])

omit [CaseTables] in
theorem moduleResult_registration (method : String) (leaf : UInt64) :
    moduleResult method (replyWith (registration leaf)).seen = .ok (registration leaf) :=
  moduleResult_replyWith rfl method

omit [CaseTables] in
theorem moduleResult_confirmation (method : String) (leaf : UInt64) :
    moduleResult method (replyWith (confirmation leaf)).seen = .ok (confirmation leaf) := by
  apply moduleResult_replyWith
  apply Value.plain_object
  simp only [List.forall_mem_cons, List.not_mem_nil, false_implies, implies_true, and_true]
  exact ⟨rfl, rfl⟩

omit [CaseTables] [SerdeJson] in
theorem authTypeOf_requestOf (t : String) : authTypeOf (requestOf t) = t :=
  fromUtf8Lossy_utf8 t

omit [SerdeJson] in
theorem keyOf_requestOf (t nul : String) :
    keyOf (requestOf t) nul = replayKey t (normalize nul) := by
  rw [keyOf, authTypeOf_requestOf]

variable {P : GifterPool} {id : Nat}

/-- A request that is registered and confirmed at once. -/
theorem run_grant (h : Ready t verifier cfg P.shared) (hnone : P.threads id = none)
    (hfits : (requestOf t).encode.length < 2 ^ 64)
    (hformed : wellFormed (normalize nul) = true)
    (hfree : ¬ IsConsumed P.shared.consumed (replayKey t (normalize nul)))
    (hpath : cfg.nullifiersPath ≠ "") :
    ∃ trace response, gifter.run P
        (System.solo id (.handle (requestOf t).encode) (grantEnvs nul)) =
          System.put P ((P.shared.reserve (replayKey t (normalize nul))).append
            cfg.nullifiersPath (replayKey t (normalize nul))) id
            ⟨.handle (requestOf t).encode, P.epoch, .ret (.responded response), trace⟩ ∧
      response.authSuccess = true ∧ Presents (requestOf t).encode trace t nul ∧
      Granted (requestOf t).encode trace ∧ Accepted trace ∧
      ⟨.append cfg.nullifiersPath (replayKey t (normalize nul)), true⟩ ∈ trace := by
  rw [← keyOf_requestOf] at hfree ⊢
  obtain ⟨trace, hdoes, hpresents, hgranted, hcall, happended⟩ :=
    handle_granted (h.accepting hfits hformed) hfree h.rln hpath
      (moduleResult_registration _ 5) (moduleResult_confirmation _ 7)
      (confirmedLeaf_confirmation 7)
  rw [authTypeOf_requestOf] at hpresents
  exact ⟨trace, _, run_task hnone hdoes, rfl, hpresents, hgranted,
    ⟨_, _, _, _, hcall, moduleResult_registration _ 5⟩, happended⟩

/-- A request whose key is used. -/
theorem run_refuse (h : Ready t verifier cfg P.shared) (hnone : P.threads id = none)
    (hfits : (requestOf t).encode.length < 2 ^ 64)
    (hformed : wellFormed (normalize nul) = true)
    (hused : IsConsumed P.shared.consumed (replayKey t (normalize nul))) :
    ∃ trace, gifter.run P
        (System.solo id (.handle (requestOf t).encode) (presentEnvs nul)) =
          System.put P (P.shared.reserve (replayKey t (normalize nul))) id
            ⟨.handle (requestOf t).encode, P.epoch, .ret (.responded (usedResponse
              (requestOf t) (replayKey t (normalize nul)))), trace⟩ ∧
      Presents (requestOf t).encode trace t nul ∧
      ⟨.reserve (replayKey t (normalize nul)), true⟩ ∈ trace := by
  rw [← keyOf_requestOf] at hused ⊢
  obtain ⟨trace, hdoes, hpresents, hreserved⟩ :=
    handle_used (h.accepting hfits hformed) hused
  rw [authTypeOf_requestOf] at hpresents
  exact ⟨trace, run_task hnone hdoes, hpresents, hreserved⟩

/-- A request whose registration fails. -/
theorem run_fail (h : Ready t verifier cfg P.shared) (hnone : P.threads id = none)
    (hfits : (requestOf t).encode.length < 2 ^ 64)
    (hformed : wellFormed (normalize nul) = true)
    (hfree : ¬ IsConsumed P.shared.consumed (replayKey t (normalize nul)))
    {registered : Outcome} {msg : String}
    (hresult : moduleResult "register_member" registered.seen = .error msg) :
    ∃ s trace response, gifter.run P (System.solo id (.handle (requestOf t).encode)
        (registerEnvs nul registered ++ [quiet])) =
          System.put P s id
            ⟨.handle (requestOf t).encode, P.epoch, .ret (.responded response), trace⟩ ∧
      Presents (requestOf t).encode trace t nul ∧
      ⟨registerCall cfg (requestOf t).identityCommitment
        (effectiveRate cfg (requestOf t)), registered⟩ ∈ trace ∧
      ⟨.release (replayKey t (normalize nul)), ()⟩ ∈ trace := by
  rw [← keyOf_requestOf] at hfree ⊢
  obtain ⟨trace, hdoes, hpresents, hcall, hreleased⟩ :=
    handle_released (h.accepting hfits hformed) hfree h.rln hresult
  rw [authTypeOf_requestOf] at hpresents
  exact ⟨_, trace, _, run_task hnone hdoes, hpresents, hcall, hreleased⟩

/-- A request that has not gone on since its registration was accepted. -/
theorem run_accepted (h : Ready t verifier cfg P.shared) (hnone : P.threads id = none)
    (hfits : (requestOf t).encode.length < 2 ^ 64)
    (hformed : wellFormed (normalize nul) = true)
    (hfree : ¬ IsConsumed P.shared.consumed (replayKey t (normalize nul))) :
    ∃ trace q, gifter.run P (System.solo id (.handle (requestOf t).encode)
        (registerEnvs nul (replyWith (registration 5)))) =
          System.put P (P.shared.reserve (replayKey t (normalize nul))) id
            ⟨.handle (requestOf t).encode, P.epoch, q, trace⟩ ∧
      Presents (requestOf t).encode trace t nul ∧ Accepted trace := by
  rw [← keyOf_requestOf] at hfree ⊢
  obtain ⟨trace, q, hdoes, hpresents, hcall⟩ :=
    handle_accepted (h.accepting hfits hformed) hfree h.rln (moduleResult_registration _ 5)
  rw [authTypeOf_requestOf] at hpresents
  exact ⟨trace, q, run_task hnone hdoes, hpresents, _, _, _, _, hcall,
    moduleResult_registration _ 5⟩

/-- The module that verifies vouchers. -/
def voucherModule : String := "voucher_auth_module"

/-- Starting to serve vouchers of type `t`, with the used ones in `path`. -/
def bootVouchers (id : Nat) (path t : String) : List (Action Task Env) :=
  boot id "config" "wallet" path t voucherModule

/-- The configuration that is installed then. -/
def vouchersCfg (path t : String) : ServerCfg :=
  servedCfg "config" "wallet" path t voucherModule

/-- A process that serves vouchers, whose threads from `id` on are yet to come. -/
structure ServesVouchers (path t : String) (id : Nat) (P : GifterPool) : Prop where
  ready : Ready t voucherModule (vouchersCfg path t) P.shared
  unborn : ∀ other, id ≤ other → P.threads other = none

/-- What a new process with these files has become, whose first threads `id` and
`id + 1` started to serve. -/
structure Booted (path t : String) (id : Nat) (files : String → Option String)
    (P booted : GifterPool) : Prop where
  serves : ServesVouchers path t (id + 2) booted
  epoch : booted.epoch = P.epoch
  consumed : booted.shared.consumed = mergeNullifiers none (loadNullifiers path (files path))
  files : booted.shared.files = files
  earlier : ∀ other, other < id → booted.threads other = P.threads other
  hosts : ∀ other th, id ≤ other → booted.threads other = some th →
    ∀ buf, th.task ≠ .handle buf

theorem run_bootVouchers (path t : String) {files : String → Option String}
    (hshared : P.shared = { files := files })
    (hunborn : ∀ other, id ≤ other → P.threads other = none) :
    Booted path t id files P (gifter.run P (bootVouchers id path t)) := by
  obtain ⟨ready, served, hrun, hready, hserved⟩ := @run_boot _ _ "config" "wallet" path t
    voucherModule P files id hshared (hunborn id (le_refl _)) (hunborn (id + 1) (by omega))
    (by decide) (by decide) (by decide) (by decide)
  rw [bootVouchers, hrun]
  refine ⟨⟨ready_servingShared, ?_⟩, rfl, rfl, rfl, ?_, ?_⟩
  · intro other hother
    rw [System.put_other (by omega), System.put_other (by omega)]
    exact hunborn other (by omega)
  · intro other hother
    rw [System.put_other (by omega), System.put_other (by omega)]
  · intro other th hother hth buf
    rcases System.put_threads hth with ⟨-, rfl⟩ | ⟨hne, hold⟩
    · rw [hserved]
      exact Task.noConfusion
    · rcases System.put_threads hold with ⟨-, rfl⟩ | ⟨hne', hold'⟩
      · rw [hready]
        exact Task.noConfusion
      · rw [hunborn other hother] at hold'
        cases hold'

omit [CaseTables] [SerdeJson] in
/-- One more thread leaves a process serving, as long as it keeps the configuration
and the clients. -/
theorem ServesVouchers.put {path : String} {s : Shared} {th : GifterThread}
    (h : ServesVouchers path t id P) (hserver : s.server = P.shared.server)
    (hclients : s.clients = P.shared.clients) :
    ServesVouchers path t (id + 1) (System.put P s id th) where
  ready := ⟨hserver.trans h.ready.server, h.ready.lookup, hclients ▸ h.ready.client,
    hclients ▸ h.ready.rln⟩
  unborn := by
    intro other hother
    rw [System.put_other (by omega)]
    exact h.unborn other (by omega)

/-- A request of type `t` that presents `nul` and is granted. -/
def granting (id : Nat) (t nul : String) : List (Action Task Env) :=
  System.solo id (.handle (requestOf t).encode) (grantEnvs nul)

/-- A request of type `t` that presents `nul` and gets as far as its reservation. -/
def presenting (id : Nat) (t nul : String) : List (Action Task Env) :=
  System.solo id (.handle (requestOf t).encode) (presentEnvs nul)

/-- A request of type `t` that presents `nul` and has not gone on since its
registration was accepted. -/
def accepting (id : Nat) (t nul : String) : List (Action Task Env) :=
  System.solo id (.handle (requestOf t).encode)
    (registerEnvs nul (replyWith (registration 5)))

/-- The process serves vouchers, does `first`, is restarted, serves the same vouchers
and does `second`. -/
def restarting (path t : String) (first second : List (Action Task Env)) :
    List (Action Task Env) :=
  bootVouchers 0 path t ++ first ++ .restart :: (bootVouchers 3 path t ++ second)

theorem run_restarting {path : String} {first second : List (Action Task Env)} :
    gifter.run (Pool.initial {}) (restarting path t first second) =
      gifter.run (gifter.run (gifter.step (gifter.run (gifter.run (Pool.initial {})
        (bootVouchers 0 path t)) first) .restart) (bootVouchers 3 path t)) second := by
  rw [restarting, gifter.run_append, gifter.run_append, gifter.run_cons, gifter.run_append]

theorem booted_restart {path : String} (h : ServesVouchers path t id P) :
    Booted path t id P.shared.files (gifter.step P .restart)
      (gifter.run (gifter.step P .restart) (bootVouchers id path t)) :=
  run_bootVouchers path t rfl h.unborn

theorem booted_first (path t : String) : Booted path t 0 (fun _ => none) (Pool.initial {})
    (gifter.run (Pool.initial {}) (bootVouchers 0 path t)) :=
  run_bootVouchers path t rfl (fun _ _ => rfl)

/-- What `now` is once thread `id` of the process of `P` was granted `nul`. -/
structure Grants (path t nul : String) (id : Nat) (trace : Trace) (P now : GifterPool) :
    Prop where
  serves : ServesVouchers path t (id + 1) now
  epoch : now.epoch = P.epoch
  thread : ∃ response, now.threads id = some ⟨.handle (requestOf t).encode, P.epoch,
    .ret (.responded response), trace⟩ ∧ response.authSuccess = true
  others : ∀ other, other ≠ id → now.threads other = P.threads other
  presents : Presents (requestOf t).encode trace t nul
  granted : Granted (requestOf t).encode trace
  accepted : Accepted trace
  appended : ⟨.append path (replayKey t (normalize nul)), true⟩ ∈ trace
  consumed : IsConsumed now.shared.consumed (replayKey t (normalize nul))
  file : now.shared.files path =
    some ((P.shared.files path).getD "" ++ nullifierLine (replayKey t (normalize nul)))

theorem run_granting {path : String} (nul : String) (h : ServesVouchers path t id P)
    (hfits : (requestOf t).encode.length < 2 ^ 64)
    (hformed : wellFormed (normalize nul) = true)
    (hfree : ¬ IsConsumed P.shared.consumed (replayKey t (normalize nul)))
    (hpath : path ≠ "") :
    ∃ trace, Grants path t nul id trace P (gifter.run P (granting id t nul)) := by
  obtain ⟨trace, response, hgrant, hsuccess, hpresents, hgranted, haccepted, happended⟩ :=
    run_grant h.ready (h.unborn id (le_refl _)) hfits hformed hfree hpath
  refine ⟨trace, ?_⟩
  rw [granting, hgrant]
  exact {
    serves := h.put rfl rfl
    epoch := rfl
    thread := ⟨response, System.put_same _ _ _ _, hsuccess⟩
    others := fun other hother => System.put_other hother
    presents := hpresents
    granted := hgranted
    accepted := haccepted
    appended := happended
    consumed := isConsumed_reserve.mpr (Or.inl rfl)
    file := by
      simp [System.put, Shared.append, Shared.reserve, vouchersCfg, servedCfg] }

/-- What `now` is once thread `id` of the process of `P` had its registration for
`nul` accepted, and did nothing since. -/
structure Accepts (path t nul : String) (id : Nat) (trace : Trace) (P now : GifterPool) :
    Prop where
  serves : ServesVouchers path t (id + 1) now
  epoch : now.epoch = P.epoch
  thread : ∃ q, now.threads id = some ⟨.handle (requestOf t).encode, P.epoch, q, trace⟩
  presents : Presents (requestOf t).encode trace t nul
  accepted : Accepted trace
  files : now.shared.files = P.shared.files

theorem run_accepting {path : String} (nul : String) (h : ServesVouchers path t id P)
    (hfits : (requestOf t).encode.length < 2 ^ 64)
    (hformed : wellFormed (normalize nul) = true)
    (hfree : ¬ IsConsumed P.shared.consumed (replayKey t (normalize nul))) :
    ∃ trace, Accepts path t nul id trace P (gifter.run P (accepting id t nul)) := by
  obtain ⟨trace, q, haccept, hpresents, haccepted⟩ :=
    run_accepted h.ready (h.unborn id (le_refl _)) hfits hformed hfree
  refine ⟨trace, ?_⟩
  rw [accepting, haccept]
  exact ⟨h.put rfl rfl, rfl, ⟨q, System.put_same _ _ _ _⟩, hpresents, haccepted, rfl⟩

/-- What `now` is once thread `id` of the process of `P` was refused `nul`, whose
key is `key`. -/
structure Refuses (t nul key : String) (id : Nat) (trace : Trace) (P now : GifterPool) :
    Prop where
  epoch : now.epoch = P.epoch
  thread : now.threads id = some ⟨.handle (requestOf t).encode, P.epoch,
    .ret (.responded (usedResponse (requestOf t) key)), trace⟩
  others : ∀ other, other ≠ id → now.threads other = P.threads other
  presents : Presents (requestOf t).encode trace t nul
  carries : Carries (requestOf t).encode trace key
  used : ⟨.reserve key, true⟩ ∈ trace

theorem run_presenting {path nul' : String} (h : ServesVouchers path t id P)
    (hfits : (requestOf t).encode.length < 2 ^ 64)
    (hformed : wellFormed (normalize nul) = true) (hsame : normalize nul' = normalize nul)
    (hused : IsConsumed P.shared.consumed (replayKey t (normalize nul))) :
    ∃ trace, Refuses t nul' (replayKey t (normalize nul)) id trace P
      (gifter.run P (presenting id t nul')) := by
  rw [← hsame] at hformed hused ⊢
  obtain ⟨trace, hrefuse, hpresents, hreserved⟩ :=
    run_refuse h.ready (h.unborn id (le_refl _)) hfits hformed hused
  refine ⟨trace, ?_⟩
  rw [presenting, hrefuse]
  exact ⟨rfl, System.put_same _ _ _ _, fun other hother => System.put_other hother,
    hpresents, hpresents.carries hformed, hreserved⟩

/-- A voucher that is granted by a first process. -/
theorem run_granted (path t nul : String)
    (hfits : (requestOf t).encode.length < 2 ^ 64)
    (hformed : wellFormed (normalize nul) = true) (hpath : path ≠ "") :
    ∃ B trace, Booted path t 0 (fun _ => none) (Pool.initial {}) B ∧
      Grants path t nul 2 trace B
        (gifter.run (Pool.initial {}) (bootVouchers 0 path t ++ granting 2 t nul)) := by
  have hboot := booted_first path t
  obtain ⟨trace, hgrants⟩ := run_granting nul hboot.serves hfits hformed
    (hboot.consumed ▸ not_isConsumed_fresh _ _) hpath
  rw [← gifter.run_append] at hgrants
  exact ⟨_, trace, hboot, hgrants⟩

/-- A voucher that is presented twice to one process, in two spellings. -/
theorem run_twice (path t : String) {nul nul' : String}
    (hfits : (requestOf t).encode.length < 2 ^ 64)
    (hformed : wellFormed (normalize nul) = true) (hsame : normalize nul' = normalize nul)
    (hpath : path ≠ "") :
    ∃ B P trace trace', Booted path t 0 (fun _ => none) (Pool.initial {}) B ∧
      Grants path t nul 2 trace B P ∧
      Refuses t nul' (replayKey t (normalize nul)) 3 trace' P (gifter.run (Pool.initial {})
        (bootVouchers 0 path t ++ granting 2 t nul ++ presenting 3 t nul')) := by
  obtain ⟨B, trace, hboot, hgrants⟩ := run_granted path t nul hfits hformed hpath
  obtain ⟨trace', hrefuses⟩ := run_presenting hgrants.serves hfits hformed hsame
    hgrants.consumed
  rw [← gifter.run_append] at hrefuses
  exact ⟨B, _, trace, trace', hboot, hgrants, hrefuses⟩

/-- A request of type `t` that presents `nul`, and whose registration has this
outcome, an error, and is rolled back. -/
def failing (id : Nat) (t nul : String) (registered : Outcome) : List (Action Task Env) :=
  System.solo id (.handle (requestOf t).encode) (registerEnvs nul registered ++ [quiet])

/-- A first request whose registration fails. -/
theorem run_failed (path t nul : String) (registered : Outcome) {msg : String}
    (hfits : (requestOf t).encode.length < 2 ^ 64)
    (hformed : wellFormed (normalize nul) = true)
    (hresult : moduleResult "register_member" registered.seen = .error msg) :
    ∃ th args timeoutMs, (gifter.run (Pool.initial {})
        (bootVouchers 0 path t ++ failing 2 t nul registered)).threads 2 = some th ∧
      ⟨.invokeAsync rlnModule "register_member" args timeoutMs, registered⟩ ∈ th.trace ∧
      ⟨.release (replayKey t (normalize nul)), ()⟩ ∈ th.trace := by
  have hboot := booted_first path t
  rw [gifter.run_append]
  generalize gifter.run (Pool.initial {}) (bootVouchers 0 path t) = P at hboot
  obtain ⟨s, trace, response, hfail, -, hcall, hreleased⟩ := run_fail hboot.serves.ready
    (hboot.serves.unborn 2 (by omega)) hfits hformed
    (hboot.consumed ▸ not_isConsumed_fresh _ _) hresult
  rw [failing, hfail]
  exact ⟨_, _, _, System.put_same _ _ _ _, hcall, hreleased⟩

omit [CaseTables] in
/-- The choices made while a process starts to serve and fails a request. -/
theorem mem_failing {path : String} {registered : Outcome} {other : Nat} {env : Env}
    (h : .act other env ∈ bootVouchers 0 path t ++ failing 2 t nul registered) :
    env.outcome = registered ∨ env.outcome.submitted = false := by
  rw [List.mem_append, bootVouchers, boot, List.mem_append, failing] at h
  rcases h with (h | h) | h
  · rw [System.mem_solo, List.mem_replicate] at h
    exact Or.inr (h.2.2 ▸ rfl)
  · rw [System.mem_solo, List.mem_replicate] at h
    exact Or.inr (h.2.2 ▸ rfl)
  · obtain ⟨-, hmem⟩ := System.mem_solo.mp h
    simp only [registerEnvs, presentEnvs, callEnvs, List.cons_append, List.nil_append,
      List.mem_cons, List.not_mem_nil, or_false] at hmem
    rcases hmem with rfl | rfl | rfl | rfl | rfl | rfl | rfl | rfl | rfl | rfl | rfl <;>
      first | exact Or.inr rfl | exact Or.inl rfl

end Vouchers

end RlnGifter
