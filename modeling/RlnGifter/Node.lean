/-
The module's process: the host calls `on_context_ready`, `serve` and `request`
one after another on its own thread, and the worker that `serve` spawned runs
beside them.  The two interleave at every operation.
-/
import Mathlib.Logic.Relation
import RlnGifter.Agreement
import RlnGifter.Serving
import RlnGifter.Worker

namespace RlnGifter

open Program

/-- What the host calls. -/
inductive HostCall where
  | contextReady
  | serve (argsJson : String)
  | request (argsJson : String)

/-- What a call of the host returns. -/
inductive HostResult where
  | ready
  | served (result : Except String Value)
  | requested (result : Except String Value)

/-- Whether a call was a `serve` that succeeded. -/
def HostResult.serves : HostResult → Bool
  | .served (.ok _) => true
  | _ => false

/-- The worker thread: how often it goes round its loop, what it has done and
what is left of its program. -/
structure WorkerThread where
  turns : Nat
  trace : Trace
  prog : Prog Unit

/-- A state of the process: the statics and the files, the host's call in
progress, whether a `serve` has returned `Ok`, and the worker thread. -/
structure Node where
  shared : Shared
  call : Option (Prog HostResult) := none
  served : Bool := false
  worker : Option WorkerThread := none

/-- A new process with these files. -/
def Node.new (files : String → Option String) : Node where
  shared := { files := files }

section Clients

/-- A client that was found is found at every later look. -/
def Steady (trace : Trace) : Prop :=
  trace.Pairwise fun first second => ∀ target,
    first = ⟨.findClient target, true⟩ → second ≠ ⟨.findClient target, false⟩

theorem Steady.of_append {first second : Trace} (h : Steady (first ++ second)) :
    Steady first ∧ Steady second :=
  ⟨(List.pairwise_append.mp h).1, (List.pairwise_append.mp h).2.1⟩

theorem Steady.not_mem_of_mem {first second : Trace} {target : String}
    (h : Steady (first ++ second))
    (hfound : (⟨.findClient target, true⟩ : Event Answer) ∈ first) :
    (⟨.findClient target, false⟩ : Event Answer) ∉ second :=
  fun hlost => (List.pairwise_append.mp h).2.2 _ hfound _ hlost target rfl rfl

variable [CaseTables]

/-- No operation takes a client away. -/
theorem clients_execOp (env : Env) (s : Shared) (e : Op) :
    s.clients ⊆ (execOp env s e).2.clients := by
  cases e with
  | append path nul =>
      rw [execOp]
      split <;> exact Finset.Subset.refl _
  | createClient target =>
      rw [execOp]
      split
      · exact Finset.subset_insert _ _
      · exact Finset.Subset.refl _
  | _ => exact Finset.Subset.refl _

/-- A look for a client is answered by whether it is there. -/
theorem findClient_answer {env : Env} {s : Shared} {e : Op} {target : String}
    {found : Bool}
    (h : (⟨e, (execOp env s e).1⟩ : Event Answer) = ⟨.findClient target, found⟩) :
    found = decide (target ∈ s.clients) := by
  obtain ⟨rfl, hanswer⟩ := Sigma.mk.inj h
  exact (eq_of_heq hanswer).symm

end Clients

section Node

variable [SerdeJson] [CaseTables] [Base64]

/-- The code a call runs. -/
def hostBody : HostCall → Prog HostResult
  | .contextReady => do
      init [libp2pModule, rlnModule]
      return .ready
  | .serve argsJson => return .served (← serve argsJson)
  | .request argsJson => return .requested (← request .owner argsJson)

/-- The steps of the process.  A call begins when none is in progress, and the
worker when it was spawned; each performs its operations one by one. -/
inductive NodeStep : Node → Node → Prop where
  | begins {N : Node} (hcall : N.call = none) (call : HostCall) :
      NodeStep N { N with call := some (hostBody call) }
  | calling {N : Node} {e : Op} {next : Answer e → Prog HostResult}
      (hcall : N.call = some (.op e next)) (env : Env) :
      NodeStep N { N with
        shared := (execOp env N.shared e).2
        call := some (next (execOp env N.shared e).1) }
  | returns {N : Node} {result : HostResult} (hcall : N.call = some (.ret result)) :
      NodeStep N { N with call := none, served := N.served || result.serves }
  | spawned {N : Node} (hworker : N.worker = none) (hspawned : 0 < N.shared.workers)
      (turns : Nat) :
      NodeStep N { N with worker := some ⟨turns, [], workerLoop turns⟩ }
  | working {N : Node} {turns : Nat} {trace : Trace} {e : Op}
      {next : Answer e → Prog Unit} (hworker : N.worker = some ⟨turns, trace, .op e next⟩)
      (env : Env) :
      NodeStep N { N with
        shared := (execOp env N.shared e).2
        worker := some ⟨turns, trace ++ [⟨e, (execOp env N.shared e).1⟩],
          next (execOp env N.shared e).1⟩ }

/-- The runs of the process in which every step is made from a state with
`ok`. -/
def NodeRun (ok : Node → Prop) : Node → Node → Prop :=
  Relation.ReflTransGen fun N N' => ok N ∧ NodeStep N N'

/-- The invariant rule for runs of the process. -/
theorem NodeRun.invariant {ok : Node → Prop} (Inv : Node → Prop)
    (hstep : ∀ N N', ok N → Inv N → NodeStep N N' → Inv N') {start N : Node}
    (hrun : NodeRun ok start N) (hstart : Inv start) : Inv N := by
  induction hrun with
  | refl => exact hstart
  | tail _ hlast ih => exact hstep _ _ hlast.1 ih hlast.2

/-- The worker stands where its trace has taken it, and a client it has found is
among the clients. -/
structure WorkerAt (s : Shared) (w : WorkerThread) : Prop where
  after : (workerLoop w.turns).After w.trace w.prog
  opened : ∀ target, (⟨.findClient target, true⟩ : Event Answer) ∈ w.trace →
    target ∈ s.clients
  steady : Steady w.trace

theorem WorkerAt.mono {s s' : Shared} {w : WorkerThread} (h : WorkerAt s w)
    (hsub : s.clients ⊆ s'.clients) : WorkerAt s' w :=
  ⟨h.after, fun target hmem => hsub (h.opened target hmem), h.steady⟩

theorem workerAt_start (s : Shared) (turns : Nat) :
    WorkerAt s ⟨turns, [], workerLoop turns⟩ :=
  ⟨after_nil.mpr rfl, by simp, List.Pairwise.nil⟩

theorem WorkerAt.step {s : Shared} {turns : Nat} {trace : Trace} {e : Op}
    {next : Answer e → Prog Unit} (h : WorkerAt s ⟨turns, trace, .op e next⟩)
    (env : Env) :
    WorkerAt (execOp env s e).2
      ⟨turns, trace ++ [⟨e, (execOp env s e).1⟩], next (execOp env s e).1⟩ := by
  refine ⟨after_concat h.after _, ?_, ?_⟩
  · intro target hmem
    apply clients_execOp env s e
    rcases List.mem_append.mp hmem with hmem | hmem
    · exact h.opened target hmem
    · exact of_decide_eq_true (findClient_answer (List.mem_singleton.mp hmem).symm).symm
  · refine List.pairwise_append.mpr ⟨h.steady, List.pairwise_singleton _ _, ?_⟩
    rintro first hfirst second hsecond target rfl
    rw [List.mem_singleton.mp hsecond]
    intro hlost
    exact of_decide_eq_false (findClient_answer hlost).symm (h.opened target hfirst)

/-- The worker of a process that has run stands where its trace has taken it. -/
theorem workerAt_run {ok : Node → Prop} {files : String → Option String} {N : Node}
    (hrun : NodeRun ok (.new files) N) {w : WorkerThread} (hworker : N.worker = some w) :
    WorkerAt N.shared w := by
  revert w
  refine NodeRun.invariant (fun N => ∀ {w}, N.worker = some w → WorkerAt N.shared w)
    ?_ hrun ?_
  · intro N N' _ hN hstep w hw
    cases hstep with
    | begins _ call => exact hN hw
    | calling _ env => exact (hN hw).mono (clients_execOp env N.shared _)
    | returns _ => exact hN hw
    | spawned _ _ turns =>
        obtain rfl := Option.some.inj hw
        exact workerAt_start N.shared turns
    | working hworker env =>
        obtain rfl := Option.some.inj hw
        exact (hN hworker).step env
  · intro w hw
    cases hw

/-- The host's call runs while the worker waits. -/
theorem NodeRun.calls {ok : Node → Prop} {N : Node} {p q : Prog HostResult} {s : Shared}
    {envs : List Env} {trace : Trace} (hcall : N.call = some p)
    (h : Does execOp p N.shared envs trace q s)
    (hok : ∀ {envs trace r s'}, Does execOp p N.shared envs trace r s' →
      ok { N with shared := s', call := some r }) :
    NodeRun ok N { N with shared := s, call := some q } := by
  obtain ⟨shared, call, served, worker⟩ := N
  subst hcall
  change Does execOp p shared envs trace q s at h
  induction h with
  | done p s => exact .refl
  | act _ ih =>
      exact .head ⟨hok (.done _ _), .calling rfl _⟩ (ih fun hdoes => hok (.act hdoes))

/-- The worker runs while the host waits. -/
theorem NodeRun.works {N : Node} {turns : Nat} {before trace : Trace} {p q : Prog Unit}
    {s : Shared} {envs : List Env} (hworker : N.worker = some ⟨turns, before, p⟩)
    (h : Does execOp p N.shared envs trace q s) :
    NodeRun (fun _ => True) N
      { N with shared := s, worker := some ⟨turns, before ++ trace, q⟩ } := by
  obtain ⟨shared, call, served, worker⟩ := N
  subst hworker
  change Does execOp p shared envs trace q s at h
  induction h generalizing before with
  | done p s =>
      rw [List.append_nil]
      exact .refl
  | @act e next s s' env envs trace q _ ih =>
      have hrest := @ih (before ++ [⟨e, (execOp env s e).1⟩])
      rw [List.append_assoc] at hrest
      exact .head ⟨trivial, .working rfl env⟩ hrest

/-- A whole call of the host. -/
theorem NodeRun.call {N : Node} {ok : Node → Prop} (call : HostCall) {result : HostResult}
    {s : Shared} (hidle : N.call = none) (h : Returns execOp (hostBody call) N.shared result s)
    (hok : ok N ∧ ∀ {envs trace r s'}, Does execOp (hostBody call) N.shared envs trace r s' →
      ok { N with shared := s', call := some r }) :
    NodeRun ok N { N with shared := s, served := N.served || result.serves } := by
  obtain ⟨envs, trace, h⟩ := h
  obtain ⟨shared, current, served, worker⟩ := N
  subst hidle
  refine .head ⟨hok.1, .begins rfl call⟩ ?_
  exact .tail (NodeRun.calls rfl h hok.2) ⟨hok.2 h, .returns rfl⟩

end Node

section Open

variable [SerdeJson] [CaseTables] {s : Shared}

/-- Mounting the protocol where there is a client for the bridge. -/
theorem mount_does_first (hserving : s.serving = false) (howner : s.owner = true)
    (hlibp2p : libp2pModule ∈ s.clients) :
    Returns execOp mount s (.ok mountedReply)
      { s with serving := true, workers := s.workers + 1 } := by
  obtain ⟨mounted, hmount⟩ := mount_does_alone hserving howner hlibp2p
  exact ⟨_, mounted, hmount⟩

/-- An open gifter starts to serve. -/
theorem serve_open (hserving : s.serving = false) (howner : s.owner = true)
    (hlibp2p : libp2pModule ∈ s.clients) :
    Returns execOp (serve (SerdeJson.toText openArgs)) s (.ok mountedReply)
      ((s.merge "").mounted openCfg) := by
  have hconfig : (openArgs.get "config").bind Value.asStr = some "c" := by
    simp [openArgs, Value.object, Value.get_insert]
  have hwallet : (openArgs.get "wallet").bind Value.asStr = some "w" := by
    simp [openArgs, Value.object, Value.get_insert]
  have hpath : ((openArgs.get "consumedNullifiersPath").bind Value.asStr).getD "" = "" := by
    simp [openArgs, Value.object, Value.get_insert]
  have hrate : ((openArgs.get "maxRateLimit").bind Value.asU64).getD defaultMaxRate =
      defaultMaxRate := by
    simp [openArgs, Value.object, Value.get_insert]
  have hread : Returns execOp (readVerifiers openArgs) s (.ok []) s := by
    have hnone : openArgs.get "authVerifiers" = none := by
      simp [openArgs, Value.object, Value.get_insert]
    rw [readVerifiers, hnone]
    exact returns_ret _ _
  have hmount := @mount_does_first _ _ { s.merge "" with server := some openCfg } hserving
    howner hlibp2p
  have hstore : execOp quiet (s.merge "") (.storeServer openCfg) =
      ((), { s.merge "" with server := some openCfg }) := rfl
  rw [serve, (SerdeJson.toText_reads openArgs).1 rfl]
  simp only [hconfig, hwallet]
  refine hread.bind ?_
  generalize ((openArgs.get "consumedNullifiersPath").bind Value.asStr).getD "" = path at hpath
  generalize ((openArgs.get "maxRateLimit").bind Value.asU64).getD defaultMaxRate = rate
    at hrate
  subst hpath hrate
  exact .step (execOp_merge s "") (.step hstore hmount)

/-- The state of an open gifter in a process with these files. -/
def openShared (files : String → Option String) : Shared :=
  ((Shared.ready { files := files }).merge "").mounted openCfg

variable [Base64]

/-- A process that serves an open gifter. -/
theorem nodeRun_open {ok : Node → Prop} (files : String → Option String)
    (hidle : ∀ N, N.call = none → ok N)
    (hready : ∀ {envs trace p s}, Does execOp (hostBody .contextReady) { files := files } envs
      trace p s → ok ⟨s, some p, false, none⟩)
    (hserve : ∀ {envs trace p s}, Does execOp (hostBody (.serve (SerdeJson.toText openArgs)))
      (Shared.ready { files := files }) envs trace p s → ok ⟨s, some p, false, none⟩) :
    NodeRun ok (.new files) ⟨openShared files, none, true, none⟩ := by
  have hfirst : Returns execOp (hostBody .contextReady) { files := files } .ready
      (Shared.ready { files := files }) :=
    ⟨[quiet, quiet, quiet], _, .act (.act (.act (.done _ _)))⟩
  have hsecond : Returns execOp (hostBody (.serve (SerdeJson.toText openArgs)))
      (Shared.ready { files := files }) (.served (.ok mountedReply)) (openShared files) :=
    (serve_open rfl rfl (by simp [Shared.ready])).bind (returns_ret _ _)
  have hrun := @NodeRun.call _ _ _ (.new files) ok .contextReady _ _ rfl hfirst
    ⟨hidle _ rfl, hready⟩
  exact hrun.trans (@NodeRun.call _ _ _ ⟨Shared.ready { files := files }, none, false, none⟩
    ok (.serve _) _ _ rfl hsecond ⟨hidle _ rfl, hserve⟩)

end Open

section Texts

variable [SerdeJson]

/-- The text of a result: `to_string` of its value, or of an object with its error. -/
def replyText : Except String Value → String
  | .ok v => SerdeJson.toText v
  | .error e => errorReply e

/-- The result of a call that has one; its text is what the host gets. -/
def HostResult.outcome : HostResult → Option (Except String Value)
  | .ready => none
  | .served result => some result
  | .requested result => some result

/-- `libp2p_call`, with the reply of the SDK's proxy to a method and its arguments. -/
def libp2pCall (proxy : String → Value → Except String Value) (argsJson : String) : String :=
  match SerdeJson.fromStr argsJson with
  | .error e => errorReply e
  | .ok a =>
      match (a.get "method").bind Value.asStr with
      | none => errorReply "missing method"
      | some method => replyText (proxy method ((a.get "args").getD (.array [])))

theorem fromStr_errorReply (e : String) :
    SerdeJson.fromStr (errorReply e) = .ok (.object [("error", .string e)]) := by
  apply (SerdeJson.toText_reads _).1
  apply Value.plain_object
  simp only [List.forall_mem_cons, List.not_mem_nil, false_implies, implies_true, and_true]
  rfl

omit [SerdeJson] in
/-- A membership is an object without an error. -/
theorem membershipReply_eq (idCommitmentHex : String) (success : MembershipAllocationSuccess) :
    ∃ entries, membershipReply idCommitmentHex success = .object entries ∧
      (∀ entry ∈ entries, entry.2.tree.plain 126 = true) ∧
      (membershipReply idCommitmentHex success).get "error" = none := by
  have hfour : ∀ entry ∈ ([("leaf_index", .u64 success.leafIndex),
      ("id_commitment", .string idCommitmentHex), ("auth_success", .bool true),
      ("identity_adopted", .bool false)] : List (String × Value)),
      entry.2.tree.plain 126 = true := by
    simp only [List.forall_mem_cons, List.not_mem_nil, false_implies, implies_true, and_true]
    exact ⟨rfl, rfl, rfl, rfl⟩
  have hmore : ∀ {entries : List (String × Value)} {key text : String},
      (∀ entry ∈ entries, entry.2.tree.plain 126 = true) →
      ∀ entry ∈ entries ++ [(key, .string text)], entry.2.tree.plain 126 = true := by
    intro entries key text h entry hentry
    rcases List.mem_append.mp hentry with hentry | hentry
    · exact h entry hentry
    · rw [List.mem_singleton.mp hentry]
      rfl
  rw [membershipReply]
  by_cases hempty : hexEncode success.transactionHash = ""
  · cases success.configAccountId with
    | none =>
        simp only [hempty, ne_eq, not_true_eq_false, ↓reduceIte]
        exact ⟨_, rfl, hfour, by simp [Value.object, Value.get_insert]⟩
    | some cfg =>
        simp only [hempty, ne_eq, not_true_eq_false, ↓reduceIte]
        exact ⟨_ ++ [("config_account", .string cfg)], rfl, hmore hfour,
          by simp [Value.object, Value.get_insert]⟩
  · cases success.configAccountId with
    | none =>
        simp only [hempty, ne_eq, not_false_eq_true, ↓reduceIte]
        exact ⟨_ ++ [("tx_hash", .string (hexEncode success.transactionHash))], rfl, hmore hfour,
          by simp [Value.object, Value.get_insert]⟩
    | some cfg =>
        simp only [hempty, ne_eq, not_false_eq_true, ↓reduceIte]
        exact ⟨_ ++ [("tx_hash", .string (hexEncode success.transactionHash))] ++
          [("config_account", .string cfg)], rfl, hmore (hmore hfour),
          by simp [Value.object, Value.get_insert]⟩

omit [SerdeJson] in
theorem readResponse_ok {p : Prepared} {resp : RlnGifterResponse} {v : Value}
    (h : readResponse p resp = .ok v) :
    ∃ success, v = membershipReply p.idCommitmentHex success := by
  rw [readResponse] at h
  split at h
  · cases h
  · split at h
    · cases h
    · split at h
      · cases h
      · cases h
        exact ⟨_, rfl⟩

theorem readReply_ok [Base64] {p : Prepared} {pr v : Value} (h : readReply p pr = .ok v) :
    ∃ success, v = membershipReply p.idCommitmentHex success := by
  rw [readReply] at h
  split at h
  · cases h
  · obtain ⟨bytes, -, h⟩ := bind_eq_ok h
    obtain ⟨resp, -, h⟩ := bind_eq_ok h
    exact readResponse_ok h

variable [CaseTables] {trace : Trace} {v : Value}

theorem request_ok [Base64] {who : Caller} {argsJson : String}
    (h : (request who argsJson).After trace (.ret (.ok v))) :
    ∃ idCommitmentHex success, v = membershipReply idCommitmentHex success := by
  obtain ⟨first, second, result, -, -, h⟩ := bind_after_ret h
  cases result with
  | error e => cases (ret_after.mp h).2
  | ok p =>
      obtain ⟨first, second, result, -, -, h⟩ := bind_after_ret h
      cases result with
      | error e => cases (ret_after.mp h).2
      | ok pr =>
          obtain ⟨success, hv⟩ := readReply_ok (Program.ret.inj (ret_after.mp h).2).symm
          exact ⟨_, success, hv⟩

omit [CaseTables] in
theorem mount_ok (h : mount.After trace (.ret (.ok v))) : v = mountedReply := by
  simp only [mount, perform_bind, pure_eq_ret] at h
  obtain ⟨serving, rest, -, h⟩ := op_after_ret h
  cases serving with
  | true => exact Except.ok.inj (Program.ret.inj (ret_after.mp h).2)
  | false =>
      obtain ⟨first, second, result, -, -, h⟩ := bind_after_ret h
      cases result with
      | error e =>
          obtain ⟨cleared, rest, -, h⟩ := op_after_ret h
          cases (ret_after.mp h).2
      | ok reply =>
          obtain ⟨spawned, rest, -, h⟩ := op_after_ret h
          exact Except.ok.inj (Program.ret.inj (ret_after.mp h).2)

omit [CaseTables] in
theorem serve_ok {argsJson : String} (h : (serve argsJson).After trace (.ret (.ok v))) :
    v = mountedReply := by
  rw [serve] at h
  split at h
  · cases (ret_after.mp h).2
  · split at h
    · cases (ret_after.mp h).2
    · split at h
      · cases (ret_after.mp h).2
      · obtain ⟨first, second, result, -, -, h⟩ := bind_after_ret h
        cases result with
        | error e => cases (ret_after.mp h).2
        | ok verifiers =>
            obtain ⟨merged, rest, -, h⟩ := op_after_ret h
            obtain ⟨stored, rest, -, h⟩ := op_after_ret h
            exact mount_ok h

/-- The host reads from the text of a call whether it failed, the error if it did and the
value if it did not. -/
theorem host_reads [Base64] {call : HostCall} {result : HostResult} {r : Except String Value}
    (h : (hostBody call).After trace (.ret result)) (hr : result.outcome = some r) :
    ∃ v, SerdeJson.fromStr (replyText r) = .ok v ∧
      (∀ e, envelopeError v = some e ↔ r = .error e) ∧ ∀ w, r = .ok w → v = w := by
  have hvalue : ∀ w, r = .ok w → w.tree.plain 127 = true ∧ envelopeError w = none := by
    rintro w rfl
    cases call with
    | contextReady =>
        obtain ⟨first, second, value, -, -, h⟩ := bind_after_ret h
        cases (ret_after.mp h).2
        cases hr
    | serve argsJson =>
        obtain ⟨first, second, value, -, hserve, h⟩ := bind_after_ret h
        cases (ret_after.mp h).2
        cases hr
        obtain rfl := serve_ok hserve
        exact ⟨rfl, by simp [envelopeError, mountedReply, Value.object, Value.get_insert]⟩
    | request argsJson =>
        obtain ⟨first, second, value, -, hrequest, h⟩ := bind_after_ret h
        cases (ret_after.mp h).2
        cases hr
        obtain ⟨idCommitmentHex, success, rfl⟩ := request_ok hrequest
        obtain ⟨entries, heq, hplain, hnone⟩ := membershipReply_eq idCommitmentHex success
        refine ⟨heq ▸ Value.plain_object hplain, ?_⟩
        rw [envelopeError, hnone]
        rfl
  cases r with
  | ok w =>
      obtain ⟨hplain, hnone⟩ := hvalue w rfl
      refine ⟨w, (SerdeJson.toText_reads w).1 hplain, fun e => ?_, fun w' hw => ?_⟩
      · rw [hnone]
        exact iff_of_false (by simp) (by simp)
      · exact Except.ok.inj hw
  | error e =>
      refine ⟨_, fromStr_errorReply e, fun e' => ?_, by simp⟩
      have henvelope : envelopeError (.object [("error", .string e)]) = some e := by
        simp [envelopeError, Value.object, Value.get_insert]
      rw [henvelope, Option.some.injEq, Except.error.injEq]

end Texts

end RlnGifter
