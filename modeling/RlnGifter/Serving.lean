/-
The calls of `serve`, one after another on the owner thread: each is rejected,
refreshes the configuration, or tries to mount the protocol, and a worker is
there exactly when one of them succeeded.
-/
import RlnGifter.Alone
import RlnGifter.Platform

namespace RlnGifter

open Program

/-- What `serve` sets, and the files, are as they were. -/
structure SameStatics (s s' : Shared) : Prop where
  server : s'.server = s.server
  consumed : s'.consumed = s.consumed
  serving : s'.serving = s.serving
  workers : s'.workers = s.workers
  files : s'.files = s.files

theorem SameStatics.refl (s : Shared) : SameStatics s s :=
  ⟨rfl, rfl, rfl, rfl, rfl⟩

theorem SameStatics.trans {s s' s'' : Shared} (h : SameStatics s s')
    (h' : SameStatics s' s'') : SameStatics s s'' :=
  ⟨h'.server.trans h.server, h'.consumed.trans h.consumed, h'.serving.trans h.serving,
    h'.workers.trans h.workers, h'.files.trans h.files⟩

section Calls

variable [CaseTables]

theorem sameStatics_execOp {e : Op} (h : Calling e) (env : Env) (s : Shared) :
    SameStatics s (execOp env s e).2 := by
  cases e with
  | createClient target =>
      simp only [execOp]
      split
      · exact ⟨rfl, rfl, rfl, rfl, rfl⟩
      · exact .refl s
  | findClient target => exact .refl s
  | readOwner => exact .refl s
  | invoke target method args timeoutMs => exact .refl s
  | invokeAsync target method args timeoutMs => exact .refl s
  | _ => cases h

/-- Looking up, opening and calling other modules changes none of them. -/
theorem sameStatics_of_calling {α : Type} {p q : Prog α} {s s' : Shared} {envs : List Env}
    {trace : Trace} (hp : p.Only Calling) (h : Does execOp p s envs trace q s') :
    SameStatics s s' := by
  induction h with
  | done p s => exact .refl s
  | act _ ih => exact (sameStatics_execOp hp.1 _ _).trans (ih (hp.2 _))

theorem sameStatics_of_returns {α : Type} {p : Prog α} {value : α} {s s' : Shared}
    (hp : p.Only Calling) (h : Returns execOp p s value s') : SameStatics s s' := by
  obtain ⟨envs, trace, h⟩ := h
  exact sameStatics_of_calling hp h

end Calls

/-- The verifier map is the one of the `authVerifiers` argument. -/
def Installs (a : Value) (verifiers : List (String × String × Option Value)) : Prop :=
  match (a.get "authVerifiers").map Value.view with
  | none | some .null => verifiers = []
  | some (.object entries) => List.Forall₂ StandsFor verifiers entries
  | some _ => False

/-- The arguments of an open gifter: `authVerifiers` left out, null or an empty
object. -/
def OpenArgs (a : Value) : Prop :=
  (a.get "authVerifiers").map Value.view = none ∨
    (a.get "authVerifiers").map Value.view = some .null ∨
    (a.get "authVerifiers").map Value.view = some (.object [])

theorem Installs.openArgs {a : Value} (h : Installs a []) : OpenArgs a := by
  rw [Installs] at h
  split at h
  · rename_i hview
    exact Or.inl hview
  · rename_i hview
    exact Or.inr (Or.inl hview)
  · rename_i entries hview
    cases h
    exact Or.inr (Or.inr hview)
  · cases h

theorem readVerifiers_installs {a : Value} {trace : Trace}
    {verifiers : List (String × String × Option Value)}
    (h : (readVerifiers a).After trace (.ret (.ok verifiers))) : Installs a verifiers := by
  rw [readVerifiers] at h
  split at h
  · rename_i hview
    cases (ret_after.mp h).2
    simp only [Installs, hview]
  · rename_i hview
    cases (ret_after.mp h).2
    simp only [Installs, hview]
  · rename_i entries hview
    simp only [Installs, hview]
    exact openVerifiers_standsFor h
  · cases (ret_after.mp h).2

section Serve

variable [SerdeJson] [CaseTables]

/-- `cfg` is the configuration of the arguments. -/
structure Configures (argsJson : String) (a : Value) (cfg : ServerCfg) : Prop where
  parsed : SerdeJson.fromStr argsJson = .ok a
  config : (a.get "config").bind Value.asStr = some cfg.config
  wallet : (a.get "wallet").bind Value.asStr = some cfg.wallet
  verifiers : Installs a cfg.authVerifiers
  path : cfg.nullifiersPath = pathOf a
  rate : cfg.maxRateLimit = ((a.get "maxRateLimit").bind Value.asU64).getD defaultMaxRate

/-- The error of a mount that failed. -/
def IsMountError (e : String) : Prop :=
  ∃ cause, e = "mountProtocol: " ++ cause

/-- The reply of a `serve` that succeeded. -/
def mountedReply : Value :=
  .object [("mounted", .bool true)]

/-- The ends of `serve`: rejected, with nothing changed; the configuration
refreshed under a mounted protocol; the mount failed and the flag taken back; the
protocol mounted and a worker started. -/
inductive ServeEnd (argsJson : String) (s : Shared) : Except String Value → Shared → Prop where
  | rejected (e : String) (he : ¬ IsMountError e) (s' : Shared) (h : SameStatics s s') :
      ServeEnd argsJson s (.error e) s'
  | refreshed (a : Value) (cfg : ServerCfg) (hcfg : Configures argsJson a cfg) (s' : Shared)
      (hbefore : s.serving = true) (hserver : s'.server = some cfg)
      (hserving : s'.serving = true) (hworkers : s'.workers = s.workers) :
      ServeEnd argsJson s (.ok mountedReply) s'
  | unmounted (a : Value) (cfg : ServerCfg) (hcfg : Configures argsJson a cfg)
      (e : String) (he : IsMountError e) (s' : Shared) (hbefore : s.serving = false)
      (hserver : s'.server = some cfg) (hserving : s'.serving = false)
      (hworkers : s'.workers = s.workers) :
      ServeEnd argsJson s (.error e) s'
  | mounted (a : Value) (cfg : ServerCfg) (hcfg : Configures argsJson a cfg) (s' : Shared)
      (hbefore : s.serving = false) (hserver : s'.server = some cfg)
      (hserving : s'.serving = true) (hworkers : s'.workers = s.workers + 1) :
      ServeEnd argsJson s (.ok mountedReply) s'

/-- The ends of the mount, once the configuration is installed. -/
theorem mount_does {s s' : Shared} {envs : List Env} {trace : Trace}
    {result : Except String Value} (h : Does execOp mount s envs trace (.ret result) s') :
    s'.server = s.server ∧
      ((s.serving = true ∧ result = .ok mountedReply ∧ s'.serving = true ∧
          s'.workers = s.workers) ∨
        (s.serving = false ∧ (∃ e, IsMountError e ∧ result = .error e) ∧
          s'.serving = false ∧ s'.workers = s.workers) ∨
        (s.serving = false ∧ result = .ok mountedReply ∧ s'.serving = true ∧
          s'.workers = s.workers + 1)) := by
  simp only [mount, perform_bind] at h
  obtain ⟨env, envs', trace', -, -, h⟩ := does_op h
  cases hserving : s.serving with
  | true =>
      simp only [execOp, hserving] at h
      obtain ⟨-, -, hresult, rfl⟩ := does_ret h
      exact ⟨rfl, Or.inl ⟨rfl, Program.ret.inj hresult, rfl, rfl⟩⟩
  | false =>
      simp only [execOp, hserving, Bool.false_eq_true, ↓reduceIte] at h
      obtain ⟨first, second, head, tail, mounted, mid, -, -, hcall, h⟩ := does_bind h
      have hsame := sameStatics_of_calling (callLibp2p_only _ _ _ _) hcall
      cases mounted with
      | error e =>
          obtain ⟨env', envs'', trace'', -, -, h⟩ := does_op h
          obtain ⟨-, -, hresult, rfl⟩ := does_ret h
          exact ⟨hsame.server, Or.inr (Or.inl ⟨rfl, ⟨_, ⟨e, rfl⟩, Program.ret.inj hresult⟩,
            rfl, hsame.workers⟩)⟩
      | ok reply =>
          obtain ⟨env', envs'', trace'', -, -, h⟩ := does_op h
          obtain ⟨-, -, hresult, rfl⟩ := does_ret h
          exact ⟨hsame.server, Or.inr (Or.inr ⟨rfl, Program.ret.inj hresult,
            hsame.serving, congrArg (· + 1) hsame.workers⟩)⟩

omit [SerdeJson] [CaseTables] in
theorem not_isMountError {e : String} (h : e.toList.take 2 ≠ ['m', 'o']) :
    ¬ IsMountError e := by
  rintro ⟨cause, rfl⟩
  exact h (by simp)

omit [SerdeJson] [CaseTables] in
/-- What is wrong with `authVerifiers` is not said in the words of a mount that
failed. -/
theorem openVerifiers_error {entries : List (String × Value)} {trace : Trace} {e : String}
    (h : (openVerifiers entries).After trace (.ret (.error e))) : ¬ IsMountError e := by
  induction entries generalizing trace with
  | nil => cases (ret_after.mp h).2
  | cons entry rest ih =>
      obtain ⟨atype, v⟩ := entry
      rw [openVerifiers] at h
      split at h
      · cases (ret_after.mp h).2
        exact not_isMountError (by simp)
      · obtain ⟨first, second, opened, -, -, h⟩ := bind_after_ret h
        cases opened with
        | error cause =>
            cases (ret_after.mp h).2
            exact not_isMountError (by simp)
        | ok _ =>
            obtain ⟨first', second', result, -, hrest, h⟩ := bind_after_ret h
            cases result with
            | error cause =>
                cases (ret_after.mp h).2
                exact ih hrest
            | ok verifiers => cases (ret_after.mp h).2

omit [SerdeJson] [CaseTables] in
theorem readVerifiers_error {a : Value} {trace : Trace} {e : String}
    (h : (readVerifiers a).After trace (.ret (.error e))) : ¬ IsMountError e := by
  rw [readVerifiers] at h
  split at h
  · cases (ret_after.mp h).2
  · cases (ret_after.mp h).2
  · exact openVerifiers_error h
  · cases (ret_after.mp h).2
    exact not_isMountError (by simp)

/-- Every call of `serve` ends in one of these ways. -/
theorem serve_does {argsJson : String} {s s' : Shared} {envs : List Env} {trace : Trace}
    {result : Except String Value}
    (h : Does execOp (serve argsJson) s envs trace (.ret result) s') :
    ServeEnd argsJson s result s' := by
  have hreject : ∀ {e : String}, ¬ IsMountError e →
      Does execOp (.ret (.error e) : Prog (Except String Value)) s envs trace
        (.ret result) s' → ServeEnd argsJson s result s' := by
    intro e he h
    obtain ⟨-, -, hresult, rfl⟩ := does_ret h
    obtain rfl := Program.ret.inj hresult
    exact .rejected e he _ (.refl _)
  rw [serve] at h
  split at h
  · exact hreject (not_isMountError (by simp)) h
  · rename_i a ha
    split at h
    · exact hreject (not_isMountError (by simp)) h
    · rename_i config hconfig
      split at h
      · exact hreject (not_isMountError (by simp)) h
      · rename_i wallet hwallet
        obtain ⟨first, second, head, tail, read, opened, -, -, hread, h⟩ := does_bind h
        have hsame := sameStatics_of_calling (readVerifiers_only a) hread
        cases read with
        | error e =>
            obtain ⟨-, -, hresult, rfl⟩ := does_ret h
            obtain rfl := Program.ret.inj hresult
            exact .rejected e (readVerifiers_error hread.after) _ hsame
        | ok verifiers =>
            simp only [perform_bind] at h
            obtain ⟨env, envs', trace', -, -, h⟩ := does_op h
            obtain ⟨env', envs'', trace'', -, -, h⟩ := does_op h
            have hcfg : Configures argsJson a ⟨config, wallet, verifiers, pathOf a,
                ((a.get "maxRateLimit").bind Value.asU64).getD defaultMaxRate⟩ :=
              ⟨ha, hconfig, hwallet, readVerifiers_installs hread.after, rfl, rfl⟩
            obtain ⟨hserver, hrefreshed | hunmounted | hmounted⟩ := mount_does h
            · obtain ⟨hbefore, rfl, hserving, hworkers⟩ := hrefreshed
              exact .refreshed a _ hcfg s' (hsame.serving.symm.trans hbefore) hserver
                hserving (hworkers.trans hsame.workers)
            · obtain ⟨hbefore, ⟨e, he, rfl⟩, hserving, hworkers⟩ := hunmounted
              exact .unmounted a _ hcfg e he s' (hsame.serving.symm.trans hbefore) hserver
                hserving (hworkers.trans hsame.workers)
            · obtain ⟨hbefore, rfl, hserving, hworkers⟩ := hmounted
              exact .mounted a _ hcfg s' (hsame.serving.symm.trans hbefore) hserver
                hserving (hworkers.trans (congrArg (· + 1) hsame.workers))

end Serve

section Mount

variable [CaseTables]

/-- The owner finds a client or opens it. -/
theorem clientPtr_opens {s : Shared} {target : String} (hnul : hasNul target = false)
    (h : target ∈ s.clients ∨ s.owner = true) :
    ∃ s', Returns execOp (clientPtr .owner target) s true s' := by
  by_cases hfound : target ∈ s.clients
  · exact ⟨s, .step (execOp_findClient hfound)
      (.step (execOp_findClient hfound) (returns_ret _ _))⟩
  · have howner : s.owner = true := h.resolve_left hfound
    have hfind : execOp quiet s (.findClient target) = (false, s) := by simp [execOp, hfound]
    have hread : execOp quiet s .readOwner = (true, s) := by simp [execOp, howner]
    have hcreate : Returns execOp (createClient target) s true
        { s with clients := insert target s.clients } :=
      ⟨_, _, createClient_does hnul⟩
    have hopened : target ∈ (insert target s.clients) := Finset.mem_insert_self _ _
    exact ⟨_, .step hfind (.step hread (hcreate.bind
      (.step (execOp_findClient hopened) (returns_ret _ _))))⟩

variable [SerdeJson]

/-- A call of the owner to the bridge may succeed where there is a client for it or
one can be opened. -/
theorem callLibp2p_succeeds {s : Shared} {method : String} (args : Value) (timeoutMs : Int)
    (hmethod : hasNul method = false) (h : libp2pModule ∈ s.clients ∨ s.owner = true) :
    ∃ s', Returns execOp (callLibp2p .owner method args timeoutMs) s (.ok .null) s' := by
  obtain ⟨s', hptr⟩ := clientPtr_opens (by decide) h
  have hargs := hasNul_toText args
  have hjson : Returns execOp (callJson .owner libp2pModule method args timeoutMs) s
      (.ok .null) s' := by
    rw [callJson]
    apply hptr.bind
    simp only [↓reduceIte, hmethod, hargs, Bool.or_self, Bool.false_eq_true]
    cases howner : s'.owner with
    | true =>
        have hread : execOp quiet s' .readOwner = (true, s') := by simp [execOp, howner]
        have hinvoke : execOp quiet s' (.invoke libp2pModule method (SerdeJson.toText args)
          timeoutMs) = (.ok none, s') := rfl
        exact .step hread (.step hinvoke (returns_ret _ _))
    | false =>
        have hread : execOp quiet s' .readOwner = (false, s') := by simp [execOp, howner]
        have hinvoke : execOp { outcome := ⟨.reply true none, true⟩ } s'
          (.invokeAsync libp2pModule method (SerdeJson.toText args) timeoutMs) =
            (⟨.reply true none, true⟩, s') := rfl
        exact .step hread (.step hinvoke (returns_ret _ _))
  exact ⟨s', hjson.bind (returns_ret _ _)⟩

theorem mount_succeeds {s : Shared} (hserving : s.serving = false)
    (h : libp2pModule ∈ s.clients ∨ s.owner = true) :
    ∃ s', Returns execOp mount s (.ok mountedReply) s' ∧ s'.workers = s.workers + 1 := by
  have hswap : execOp quiet s .swapServing = (false, { s with serving := true }) := by
    simp [execOp, hserving]
  obtain ⟨called, hcall⟩ := @callLibp2p_succeeds _ _ { s with serving := true }
    "mountProtocol" (.array [.string rlnGifterCodec]) mountTimeoutMs (by decide) h
  have hcalled := sameStatics_of_returns (callLibp2p_only _ _ _ _) hcall
  have hspawn : execOp quiet called .spawnWorker =
      ((), { called with workers := called.workers + 1 }) := rfl
  exact ⟨_, .step hswap (hcall.bind (.step hspawn (returns_ret _ _))),
    congrArg (· + 1) hcalled.workers⟩

/-- A later call can mount: whatever its arguments are, if they are accepted and
there is a client for the bridge or one can be opened, it may succeed and start a
worker. -/
def CanMount (s : Shared) : Prop :=
  ∀ {argsJson config wallet : String} {a : Value}
    {verifiers : List (String × String × Option Value)} {opened : Shared},
    SerdeJson.fromStr argsJson = .ok a →
    (a.get "config").bind Value.asStr = some config →
    (a.get "wallet").bind Value.asStr = some wallet →
    Returns execOp (readVerifiers a) s (.ok verifiers) opened →
    (libp2pModule ∈ opened.clients ∨ opened.owner = true) →
    ∃ s', Returns execOp (serve argsJson) s (.ok mountedReply) s' ∧
      s'.workers = s.workers + 1

theorem canMount_of_not_serving {s : Shared} (hserving : s.serving = false) : CanMount s := by
  intro argsJson config wallet a verifiers opened ha hconfig hwallet hread hopen
  have hsame := sameStatics_of_returns (readVerifiers_only a) hread
  generalize hcfg : (ServerCfg.mk config wallet verifiers (pathOf a)
    (((a.get "maxRateLimit").bind Value.asU64).getD defaultMaxRate)) = cfg
  have hstore : execOp quiet (opened.merge (pathOf a)) (.storeServer cfg) =
      ((), { opened.merge (pathOf a) with server := some cfg }) := rfl
  obtain ⟨s', hmount, hworkers⟩ := @mount_succeeds _ _
    { opened.merge (pathOf a) with server := some cfg } (hsame.serving.trans hserving) hopen
  refine ⟨s', ?_, hworkers.trans (congrArg (· + 1) hsame.workers)⟩
  rw [serve, ha]
  simp only [hconfig, hwallet]
  subst hcfg
  exact hread.bind (.step (execOp_merge opened (pathOf a)) (.step hstore hmount))

end Mount

section History

variable [SerdeJson] [CaseTables]

/-- One call of `serve`, with the states before and after it. -/
structure ServeCall where
  argsJson : String
  result : Except String Value
  before : Shared
  after : Shared

/-- The call returned `Ok`. -/
def ServeCall.succeeded (call : ServeCall) : Bool :=
  call.result.isOk

/-- The histories of a process, by the calls of `serve` so far, the latest first,
and the state.  Between the calls anything may happen that leaves the
configuration, the flag and the workers alone: requests, other calls of the host,
writes to files. -/
inductive ServeHistory : List ServeCall → Shared → Prop where
  | start {s : Shared} (hserver : s.server = none) (hserving : s.serving = false)
      (hworkers : s.workers = 0) : ServeHistory [] s
  | call {calls : List ServeCall} {s s' : Shared} {argsJson : String}
      {result : Except String Value} (h : ServeHistory calls s)
      (hcall : Returns execOp (serve argsJson) s result s') :
      ServeHistory (⟨argsJson, result, s, s'⟩ :: calls) s'
  | other {calls : List ServeCall} {s s' : Shared} (h : ServeHistory calls s)
      (hserver : s'.server = s.server) (hserving : s'.serving = s.serving)
      (hworkers : s'.workers = s.workers) : ServeHistory calls s'

/-- What holds of `serve` as a state machine, in a state and for the calls that
led to it. -/
structure Serves (calls : List ServeCall) (s : Shared) : Prop where
  atMostOne : s.workers ≤ 1
  worker_iff : s.workers = 1 ↔ ∃ call ∈ calls, call.succeeded = true
  /-- A mount that failed leaves the module able to mount. -/
  unmounted : ∀ call ∈ calls, ∀ e, call.result = .error e → IsMountError e →
    call.after.serving = false ∧ call.after.workers = 0 ∧ CanMount call.after
  canMount : s.workers = 0 → CanMount s
  rejected : ∀ call ∈ calls, ∀ e, call.result = .error e → ¬ IsMountError e →
    call.after.server = call.before.server ∧
      call.after.consumed = call.before.consumed ∧
      call.after.serving = call.before.serving
  latest : s.workers = 1 → ∃ call a cfg, calls.find? ServeCall.succeeded = some call ∧
    s.server = some cfg ∧ Configures call.argsJson a cfg
  configured : ∀ cfg, s.server = some cfg → ∃ call ∈ calls, ∃ a,
    Configures call.argsJson a cfg ∧ (cfg.authVerifiers = [] → OpenArgs a)

/-- What carries the induction besides: the flag is up exactly while there is a
worker. -/
structure ServesUp (calls : List ServeCall) (s : Shared) : Prop extends Serves calls s where
  up_iff : s.serving = true ↔ s.workers = 1

theorem servesUp_start {s : Shared} (hserver : s.server = none)
    (hserving : s.serving = false) (hworkers : s.workers = 0) : ServesUp [] s where
  atMostOne := by omega
  worker_iff := by simp [hworkers]
  unmounted := by simp
  canMount _ := canMount_of_not_serving hserving
  rejected := by simp
  latest h := by omega
  configured cfg h := by simp [hserver] at h
  up_iff := by simp [hserving, hworkers]

theorem ServesUp.other {calls : List ServeCall} {s s' : Shared} (h : ServesUp calls s)
    (hserver : s'.server = s.server) (hserving : s'.serving = s.serving)
    (hworkers : s'.workers = s.workers) : ServesUp calls s' where
  atMostOne := hworkers ▸ h.atMostOne
  worker_iff := hworkers ▸ h.worker_iff
  unmounted := h.unmounted
  canMount hnone := by
    apply canMount_of_not_serving
    rw [← Bool.not_eq_true, hserving, h.up_iff, ← hworkers, hnone]
    decide
  rejected := h.rejected
  latest hone := by
    rw [hserver]
    exact h.latest (hworkers ▸ hone)
  configured := hserver ▸ h.configured
  up_iff := by rw [hserving, hworkers, h.up_iff]

omit [CaseTables] [SerdeJson] in
theorem succeeded_cons_error {call : ServeCall} {calls : List ServeCall} {e : String}
    (hresult : call.result = .error e) :
    (∃ other ∈ call :: calls, other.succeeded = true) ↔
      ∃ other ∈ calls, other.succeeded = true := by
  have hfailed : call.succeeded = false := by rw [ServeCall.succeeded, hresult]; rfl
  simp [hfailed]

/-- A call that changed nothing. -/
theorem ServesUp.call_rejected {calls : List ServeCall} {s s' : Shared} {argsJson e : String}
    (h : ServesUp calls s) (he : ¬ IsMountError e) (hsame : SameStatics s s') :
    ServesUp (⟨argsJson, .error e, s, s'⟩ :: calls) s' := by
  have hnone : s'.workers = 0 → CanMount s' := by
    intro hnone
    apply canMount_of_not_serving
    rw [← Bool.not_eq_true, hsame.serving, h.up_iff, ← hsame.workers, hnone]
    decide
  refine ⟨⟨hsame.workers ▸ h.atMostOne, ?_, ?_, hnone, ?_, ?_, ?_⟩, ?_⟩
  · rw [succeeded_cons_error rfl, hsame.workers]
    exact h.worker_iff
  · refine List.forall_mem_cons.mpr ⟨?_, h.unmounted⟩
    intro e' heq he'
    cases heq
    exact absurd he' he
  · refine List.forall_mem_cons.mpr ⟨?_, h.rejected⟩
    intro e' heq he'
    exact ⟨hsame.server, hsame.consumed, hsame.serving⟩
  · intro hone
    obtain ⟨call, a, cfg, hfind, hserver, hcfg⟩ := h.latest (hsame.workers ▸ hone)
    exact ⟨call, a, cfg, hfind, hsame.server.trans hserver, hcfg⟩
  · intro cfg hserver
    obtain ⟨call, hmem, hcfg⟩ := h.configured cfg (hsame.server ▸ hserver)
    exact ⟨call, List.mem_cons_of_mem _ hmem, hcfg⟩
  · rw [hsame.serving, hsame.workers, h.up_iff]

/-- A call that installed its configuration and could not mount. -/
theorem ServesUp.call_unmounted {calls : List ServeCall} {s s' : Shared}
    {argsJson e : String} {a : Value} {cfg : ServerCfg} (h : ServesUp calls s)
    (hcfg : Configures argsJson a cfg) (he : IsMountError e) (hbefore : s.serving = false)
    (hserver : s'.server = some cfg) (hserving : s'.serving = false)
    (hworkers : s'.workers = s.workers) :
    ServesUp (⟨argsJson, .error e, s, s'⟩ :: calls) s' := by
  have hnone : s.workers = 0 := by
    have hnot : s.workers ≠ 1 := by
      rw [ne_eq, ← h.up_iff, hbefore]
      decide
    have hle := h.atMostOne
    omega
  have hnone' : s'.workers = 0 := hworkers.trans hnone
  refine ⟨⟨by omega, ?_, ?_, fun _ => canMount_of_not_serving hserving, ?_, ?_, ?_⟩, ?_⟩
  · rw [succeeded_cons_error rfl, hworkers]
    exact h.worker_iff
  · refine List.forall_mem_cons.mpr ⟨?_, h.unmounted⟩
    intro e' _ _
    exact ⟨hserving, hnone', canMount_of_not_serving hserving⟩
  · refine List.forall_mem_cons.mpr ⟨?_, h.rejected⟩
    intro e' heq he'
    cases heq
    exact absurd he he'
  · intro hone
    omega
  · intro cfg' hserver'
    obtain rfl := Option.some.inj (hserver.symm.trans hserver')
    refine ⟨_, List.mem_cons_self, a, hcfg, fun hopen => ?_⟩
    exact (hopen ▸ hcfg.verifiers).openArgs
  · rw [hserving, hnone']
    decide

/-- A call that did not mount or refresh anything. -/
theorem ServesUp.call_error {calls : List ServeCall} {s s' : Shared} {argsJson e : String}
    (h : ServesUp calls s) (hend : ServeEnd argsJson s (.error e) s') :
    ServesUp (⟨argsJson, .error e, s, s'⟩ :: calls) s' := by
  cases hend with
  | rejected _ he _ hsame => exact h.call_rejected he hsame
  | unmounted a cfg hcfg _ he _ hbefore hserver hserving hworkers =>
      exact h.call_unmounted hcfg he hbefore hserver hserving hworkers

/-- A call that succeeded. -/
theorem ServesUp.call_ok {calls : List ServeCall} {s s' : Shared} {argsJson : String}
    {reply : Value} (h : ServesUp calls s) (hend : ServeEnd argsJson s (.ok reply) s') :
    ServesUp (⟨argsJson, .ok reply, s, s'⟩ :: calls) s' := by
  have hup : s'.serving = true ∧ s'.workers = 1 ∧ ∃ a cfg, s'.server = some cfg ∧
      Configures argsJson a cfg := by
    cases hend with
    | refreshed a cfg hcfg _ hbefore hserver hserving hworkers =>
        exact ⟨hserving, hworkers.trans (h.up_iff.mp hbefore), a, cfg, hserver, hcfg⟩
    | mounted a cfg hcfg _ hbefore hserver hserving hworkers =>
        have hnot : s.workers ≠ 1 := by
          rw [ne_eq, ← h.up_iff, hbefore]
          decide
        have hle := h.atMostOne
        exact ⟨hserving, by omega, a, cfg, hserver, hcfg⟩
  obtain ⟨hserving, hone, a, cfg, hserver, hcfg⟩ := hup
  refine ⟨⟨hone.le, ?_, ?_, fun hnone => by omega, ?_, ?_, ?_⟩, ?_⟩
  · exact ⟨fun _ => ⟨_, List.mem_cons_self, rfl⟩, fun _ => hone⟩
  · refine List.forall_mem_cons.mpr ⟨?_, h.unmounted⟩
    intro e' heq
    cases heq
  · refine List.forall_mem_cons.mpr ⟨?_, h.rejected⟩
    intro e' heq
    cases heq
  · intro _
    exact ⟨_, a, cfg, rfl, hserver, hcfg⟩
  · intro cfg' hserver'
    obtain rfl := Option.some.inj (hserver.symm.trans hserver')
    refine ⟨_, List.mem_cons_self, a, hcfg, fun hopen => ?_⟩
    exact (hopen ▸ hcfg.verifiers).openArgs
  · rw [hserving, hone]
    decide

/-- Every history of calls keeps to the state machine. -/
theorem serve_stateMachine {calls : List ServeCall} {s : Shared} (h : ServeHistory calls s) :
    Serves calls s := by
  have hup : ServesUp calls s := by
    induction h with
    | start hserver hserving hworkers => exact servesUp_start hserver hserving hworkers
    | call _ hcall ih =>
        rename_i result _
        obtain ⟨envs, trace, hcall⟩ := hcall
        cases result with
        | error e => exact ih.call_error (serve_does hcall)
        | ok reply => exact ih.call_ok (serve_does hcall)
    | other _ hserver hserving hworkers ih => exact ih.other hserver hserving hworkers
  exact hup.toServes

end History

/-- The arguments of an open gifter. -/
def openArgs : Value :=
  .object [("config", .string "c"), ("wallet", .string "w")]

open Platform in
/-- A call that is rejected, then one that mounts an open gifter. -/
theorem serve_stateMachine_open : ∃ s, s.workers = 1 ∧ Serves
    [⟨SerdeJson.toText openArgs, .ok mountedReply, { owner := true }, s⟩,
      ⟨SerdeJson.toText .null, .error "missing config", { owner := true },
        { owner := true }⟩] s := by
  have hrejected : Returns execOp (serve (SerdeJson.toText .null)) { owner := true }
      (.error "missing config") { owner := true } := by
    rw [serve, (SerdeJson.toText_reads .null).1 rfl]
    exact returns_ret _ _
  have hread : Returns execOp (readVerifiers openArgs) { owner := true } (.ok [])
      { owner := true } := by
    have hnone : openArgs.get "authVerifiers" = none := by
      simp [openArgs, Value.object, Value.get_insert]
    rw [readVerifiers, hnone]
    exact returns_ret _ _
  obtain ⟨s, hcall, hworkers⟩ := canMount_of_not_serving (s := { owner := true }) rfl
    ((SerdeJson.toText_reads openArgs).1 rfl)
    (by simp [openArgs, Value.object, Value.get_insert]; rfl)
    (by simp [openArgs, Value.object, Value.get_insert]; rfl) hread (Or.inr rfl)
  exact ⟨s, hworkers, serve_stateMachine
    (.call (.call (.start rfl rfl rfl) hrejected) hcall)⟩

end RlnGifter
