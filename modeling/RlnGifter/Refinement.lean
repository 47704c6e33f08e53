/-
The gifter's process refines its pool.  Whatever the host's thread and the worker beside it
do, and however often the process crashes, the pool has a run with the same statics and
files; and the trace of each worker is woven of its calls of the bridge and the traces of
the requests that the pool handled in the same process.
-/
import RlnGifter.Network
import RlnGifter.Weaving

namespace RlnGifter

open Program

theorem OnBridge.requesting {e : Op} (h : OnBridge e) : Requesting e := by
  cases e <;> first | exact h | trivial

theorem OnBridge.idle [CaseTables] (e : Op) (env : Env) (s : Shared) (h : OnBridge e) :
    (execOp env s e).2 = s := by
  cases e with
  | findClient target => rfl
  | readOwner => rfl
  | invokeAsync target method args timeoutMs => rfl
  | _ => cases h

/-- The tasks of a worker. -/
def IsHandle : Task → Prop
  | .handle _ => True
  | _ => False

section Worker

variable [SerdeJson] [CaseTables]

theorem handleRequest_only (buf : List UInt8) : (handleRequest buf).Only Requesting :=
  only_of_after fun _ _ _ hrun => (handleRequest_after hrun).requesting rfl

theorem handle_requesting {task : Task} (h : IsHandle task) :
    (gifter.body task).Only Requesting := by
  cases task with
  | handle buf => exact only_bind (handleRequest_only buf) fun _ => only_ret _
  | contextReady => cases h
  | serve argsJson => cases h

variable [Base64]

/-- The worker handles requests one after another, and between them calls the bridge. -/
theorem workerLoop_runs (turns : Nat) :
    (workerLoop turns).Runs gifter.body IsHandle OnBridge := by
  have hcall : ∀ {method : String} {args : Value} {timeoutMs : Int},
      (callLibp2p .worker method args timeoutMs).Runs gifter.body IsHandle OnBridge :=
    runs_of_only callLibp2p_onBridge
  have hstream : ∀ streamId : UInt64,
      (handleStream streamId).Runs gifter.body IsHandle OnBridge := by
    intro streamId
    rw [handleStream]
    refine hcall.bind fun read => ?_
    cases read with
    | error e => exact .ret _
    | ok read =>
        cases hbytes : requestBytes read with
        | error e =>
            simp only [hbytes]
            exact .ret _
        | ok buf =>
            have htask : gifter.body (.handle buf) =
                handleRequest buf >>= fun response => .ret (.responded response) := rfl
            simp only [hbytes]
            refine .task trivial htask fun resp => ?_
            exact hcall.bind fun _ => hcall.bind fun _ => .ret _
  induction turns with
  | zero => exact .ret _
  | succ turns ih =>
      rw [workerLoop]
      refine Runs.bind (hcall.bind fun accept => ?_) fun _ => ih
      cases acceptedStream accept with
      | none => exact .ret _
      | some streamId => exact (hstream streamId).bind fun _ => .ret _

end Worker

section Host

/-- What a client's request may do beside the worker: it calls other modules, and opens a
client where it is the owner. -/
def OpensAsOwner (s : Shared) : Op → Prop
  | .findClient _ | .readOwner | .invoke _ _ _ _ | .invokeAsync _ _ _ _ => True
  | .createClient target => s.owner = true ∧ hasNul target = false ∧ target ≠ ""
  | _ => False

variable [CaseTables]

abbrev OwnerSafe {α : Type} (p : Prog α) (s : Shared) : Prop :=
  p.Safe execOp SameSetup OpensAsOwner (fun _ _ => True) s

theorem OwnerSafe.bind {α β : Type} {p : Prog α} {f : α → Prog β} {s : Shared}
    (hp : OwnerSafe p s) (hf : ∀ value s, OwnerSafe (f value) s) : OwnerSafe (p >>= f) s :=
  Safe.bind SameSetup.refl hp fun value s _ => hf value s

theorem ownerSafe_ret {α : Type} (value : α) (s : Shared) :
    OwnerSafe (.ret value : Prog α) s :=
  fun _ _ => trivial

theorem clientPtr_ownerSafe {target : String} (htarget : target ≠ "") (s : Shared) :
    OwnerSafe (clientPtr .owner target) s := by
  have hfind : ∀ s, OwnerSafe (perform (.findClient target)) s :=
    fun s s' _ => ⟨trivial, fun _ _ _ => trivial⟩
  rw [clientPtr]
  refine (hfind s).bind fun found s => ?_
  cases found with
  | true => exact hfind s
  | false =>
      intro s' _
      refine ⟨trivial, fun env => ?_⟩
      dsimp only [execOp]
      cases howner : s'.owner with
      | false => exact hfind s'
      | true =>
          have hopen : OwnerSafe (createClient target) s' := by
            rw [createClient]
            cases hnul : hasNul target with
            | true => exact ownerSafe_ret false s'
            | false =>
                intro s'' hsame
                exact ⟨⟨hsame.owner.trans howner, hnul, htarget⟩, fun _ _ _ => trivial⟩
          exact hopen.bind fun _ s => hfind s

variable [SerdeJson]

theorem callJson_ownerSafe {target : String} (htarget : target ≠ "") (method : String)
    (args : Value) (timeoutMs : Int) (s : Shared) :
    OwnerSafe (callJson .owner target method args timeoutMs) s := by
  rw [callJson]
  refine (clientPtr_ownerSafe htarget s).bind fun ptr s => ?_
  cases ptr with
  | false => exact ownerSafe_ret _ s
  | true =>
      simp only [↓reduceIte]
      split
      · exact ownerSafe_ret _ s
      · intro s' _
        refine ⟨trivial, fun env => ?_⟩
        dsimp only [execOp]
        cases s'.owner with
        | false => exact fun _ _ => ⟨trivial, fun _ _ _ => trivial⟩
        | true => exact fun _ _ => ⟨trivial, fun _ _ _ => trivial⟩

theorem callModuleJson_ownerSafe {target : String} (htarget : target ≠ "") (method : String)
    (args : Value) (timeoutMs : Int) (s : Shared) :
    OwnerSafe (callModuleJson .owner target method args timeoutMs) s :=
  (callJson_ownerSafe htarget method args timeoutMs s).bind fun _ s => ownerSafe_ret _ s

theorem callLibp2p_ownerSafe (method : String) (args : Value) (timeoutMs : Int) (s : Shared) :
    OwnerSafe (callLibp2p .owner method args timeoutMs) s :=
  (callJson_ownerSafe (by decide) method args timeoutMs s).bind fun _ s => ownerSafe_ret _ s

theorem producePayload_ownerSafe {authProvider : String} (hprovider : authProvider ≠ "")
    (prodReq : ProduceRequest) (s : Shared) :
    OwnerSafe (producePayload .owner authProvider prodReq) s := by
  rw [producePayload]
  split
  · exact ownerSafe_ret _ s
  · refine (callModuleJson_ownerSafe hprovider _ _ _ s).bind fun reply s => ?_
    split
    · exact ownerSafe_ret _ s
    · split <;> exact ownerSafe_ret _ s

variable [Base64]

theorem request_ownerSafe (argsJson : String) (s : Shared) :
    OwnerSafe (request .owner argsJson) s := by
  have hpayload : ∀ a idc s, OwnerSafe (authPayload .owner a idc) s := by
    intro a idc s
    rw [authPayload]
    split
    · exact ownerSafe_ret _ s
    · split
      · split <;> exact ownerSafe_ret _ s
      · split
        · exact ownerSafe_ret _ s
        · split
          · rename_i hprovider
            exact producePayload_ownerSafe hprovider _ s
          · exact ownerSafe_ret _ s
  have hprepare : OwnerSafe (prepareRequest .owner argsJson) s := by
    rw [prepareRequest]
    split
    · exact ownerSafe_ret _ s
    · split
      · exact ownerSafe_ret _ s
      · split
        · exact ownerSafe_ret _ s
        · simp only
          split
          · exact ownerSafe_ret _ s
          · split
            · exact ownerSafe_ret _ s
            · refine (hpayload _ _ s).bind fun payload s => ?_
              split <;> exact ownerSafe_ret _ s
  refine hprepare.bind fun prepared s => ?_
  split
  · exact ownerSafe_ret _ s
  · refine (callLibp2p_ownerSafe _ _ _ s).bind fun pr s => ?_
    split <;> exact ownerSafe_ret _ s

end Host

/-- Decisions in which a `serve` has an argument in `texts`, and the environment is one of
`envs`. -/
def Within (texts : String → Prop) (envs : Env → Prop) : Action Task Env → Prop
  | .spawn _ (.serve argsJson) => texts argsJson
  | .act _ env => envs env
  | _ => True

section Simulation

variable [CaseTables] [SerdeJson] {texts : String → Prop} {goes : Env → Shared → Op → Prop}
  {envs : Env → Prop}

/-- What goes as in `goes` could go so in one of `envs`; and a `serve` with one of `texts`
could open any client. -/
structure Grounds (texts : String → Prop) (goes : Env → Shared → Op → Prop)
    (envs : Env → Prop) : Prop where
  exec : ∀ env s e, goes env s e → ∃ env', envs env' ∧ execOp env' s e = execOp env s e
  quiet : envs quiet
  opening : ∃ path t, ∀ target, texts (SerdeJson.toText (serveArgs "" "" path t target))

theorem grounds_true : Grounds (fun _ => True) (fun _ _ _ => True) fun _ => True where
  exec env _ _ _ := ⟨env, trivial, rfl⟩
  quiet := trivial
  opening := ⟨"", "", fun _ => trivial⟩

/-- The pool comes by such decisions to `Q`, and the threads with `keep` stay as they are. -/
abbrev Comes (texts : String → Prop) (envs : Env → Prop) (keep : GifterThread → Prop)
    (P : GifterPool) (s : Shared) (Q : GifterPool) : Prop :=
  System.Reaches gifter (Within texts envs) keep P s Q

variable [Base64]

/-- The host's call is one that a client makes, or it is what a thread of the pool runs. -/
inductive HostFollows (P : GifterPool) (p : Prog HostResult) : Prop where
  | own (hsafe : OwnerSafe p P.shared)
  | inside {id : Nat} {th : GifterThread} (hth : P.threads id = some th)
      (htask : ¬ IsHandle th.task) (hepoch : th.epoch = P.epoch) {β : Type} {r : Prog β}
      {g : β → Finished} (hprog : th.prog = r >>= fun value => .ret (g value))
      {f : β → HostResult} (hp : p = r >>= fun value => .ret (f value))

/-- The pool stands where the process stands. -/
structure Simulates (P : GifterPool) (N : Node) : Prop where
  shared : P.shared = N.shared
  roomy : System.Roomy P
  host : ∀ p, N.call = some p → HostFollows P p
  requesting : ∀ w, N.worker = some w → w.prog.Only Requesting
  worker : ∀ w, N.worker = some w →
    ∃ ids, System.Follows gifter IsHandle OnBridge P w.prog w.trace ids

/-- Threads of the host's calls in the present process. -/
abbrev HostPart (P : GifterPool) (th : GifterThread) : Prop :=
  System.Part (fun task => ¬ IsHandle task) P.epoch th

omit [Base64] in
theorem simulates_new {P : GifterPool} {files : String → Option String}
    (hshared : P.shared = { files := files }) (hroomy : System.Roomy P) :
    Simulates P (.new files) where
  shared := hshared
  roomy := hroomy
  host := by simp [Node.new]
  requesting := by simp [Node.new]
  worker := by simp [Node.new]

omit [Base64] in
/-- The host's thread takes a step, which leaves the worker's requests where they are. -/
theorem Simulates.hostStep {P Q : GifterPool} {N N' : Node} (h : Simulates P N)
    (hworker : N'.worker = N.worker)
    (hcomes : Comes texts envs (fun th => ¬ HostPart P th) P N'.shared Q)
    (hhost : ∀ p, N'.call = some p → HostFollows Q p) : Simulates Q N' where
  shared := hcomes.shared
  roomy := hcomes.roomy
  host := hhost
  requesting := by
    rw [hworker]
    exact h.requesting
  worker := by
    rw [hworker]
    intro w hw
    obtain ⟨ids, hfollows⟩ := h.worker w hw
    refine ⟨ids, hfollows.mono hcomes.epoch fun id th hth htask => ?_⟩
    exact hcomes.threads id th hth fun hpart => hpart.1 htask

/-- The host begins a call. -/
theorem Simulates.begins {P : GifterPool} {N : Node} (h : Simulates P N) (call : HostCall)
    (htexts : ∀ argsJson, call = .serve argsJson → texts argsJson) :
    ∃ Q, Simulates Q { N with call := some (hostBody call) } ∧
      Comes texts envs (fun th => ¬ HostPart P th) P N.shared Q := by
  have hthread : ∀ (task : Task) {β : Type} {r : Prog β} {g : β → Finished}
      {f : β → HostResult}, ¬ IsHandle task → (∀ id, Within texts envs (.spawn id task)) →
      gifter.body task = (r >>= fun value => .ret (g value)) →
      hostBody call = (r >>= fun value => .ret (f value)) →
      ∃ Q, Simulates Q { N with call := some (hostBody call) } ∧
        Comes texts envs (fun th => ¬ HostPart P th) P N.shared Q := by
    intro task β r g f htask hspawn hbody hcall
    obtain ⟨id, -, hcomes⟩ : ∃ id, P.threads id = none ∧
        Comes texts envs (fun th => ¬ HostPart P th) P P.shared
          (System.put P P.shared id ⟨task, P.epoch, gifter.body task, []⟩) :=
      System.reaches_solo h.roomy hspawn (by simp) (.done _ _)
    rw [h.shared] at hcomes
    refine ⟨_, h.hostStep rfl hcomes fun p hp => ?_, hcomes⟩
    obtain rfl := Option.some.inj hp
    exact .inside (System.put_same ..) htask rfl hbody hcall
  cases call with
  | contextReady => exact hthread .contextReady id (fun _ => trivial) rfl rfl
  | serve argsJson =>
      exact hthread (.serve argsJson) id (fun _ => htexts argsJson rfl) rfl rfl
  | request argsJson =>
      have hcomes : Comes texts envs (fun th => ¬ HostPart P th) P N.shared P := by
        rw [← h.shared]
        exact System.reaches_refl h.roomy
      refine ⟨P, h.hostStep rfl hcomes fun p hp => ?_, hcomes⟩
      obtain rfl := Option.some.inj hp
      refine .own ((request_ownerSafe argsJson P.shared).bind fun result s => ?_)
      exact ownerSafe_ret (HostResult.requested result) s

omit [Base64] in
/-- A client that a request opens, a `serve` could have opened. -/
theorem comes_client (hgrounds : Grounds texts goes envs) {P : GifterPool} {target : String}
    (hroomy : System.Roomy P) (howner : P.shared.owner = true) (hnul : hasNul target = false)
    (hne : target ≠ "") (env : Env) {keep : GifterThread → Prop} :
    ∃ Q, Comes texts envs keep P (execOp env P.shared (.createClient target)).2 Q := by
  have hsame : ∀ s, s = P.shared → ∃ Q, Comes texts envs keep P s Q := by
    rintro s rfl
    exact ⟨P, System.reaches_refl hroomy⟩
  rw [execOp]
  split
  · by_cases hfound : target ∈ P.shared.clients
    · refine hsame _ ?_
      rw [Finset.insert_eq_of_mem hfound]
    · obtain ⟨path, t, htexts⟩ := hgrounds.opening
      have hopens : Does gifter.exec (gifter.body (.serve (SerdeJson.toText
          (serveArgs "" "" path t target)))) P.shared [quiet, quiet, quiet] _ _ _ :=
        serve_merging hne (ensureClient_does howner hnul hfound)
      have hact : ∀ id, ∀ env ∈ [quiet, quiet, quiet], Within texts envs (.act id env) := by
        simp only [List.forall_mem_cons, List.not_mem_nil, false_implies, implies_true,
          and_true]
        exact fun _ => ⟨hgrounds.quiet, hgrounds.quiet, hgrounds.quiet⟩
      have hspawn : ∀ id, Within texts envs (.spawn id (.serve (SerdeJson.toText
          (serveArgs "" "" path t target)))) :=
        fun _ => htexts target
      obtain ⟨id, -, hcomes⟩ := System.reaches_solo hroomy hspawn hact hopens
      exact ⟨_, hcomes⟩
  · exact hsame _ rfl

omit [Base64] in
/-- The host's call goes on. -/
theorem Simulates.calling (hgrounds : Grounds texts goes envs) {P : GifterPool} {N : Node}
    (h : Simulates P N) {e : Op} {next : Answer e → Prog HostResult}
    (hcall : N.call = some (.op e next)) {env : Env} (hgoes : goes env N.shared e) :
    ∃ Q, Simulates Q { N with
        shared := (execOp env N.shared e).2
        call := some (next (execOp env N.shared e).1) } ∧
      Comes texts envs (fun th => ¬ HostPart P th) P (execOp env N.shared e).2 Q := by
  obtain ⟨env', henv, hexec⟩ := hgrounds.exec env N.shared e hgoes
  rw [← hexec, ← h.shared]
  cases h.host _ hcall with
  | own hsafe =>
      obtain ⟨hopens, hnext⟩ := hsafe P.shared (.refl _)
      have hcomes : ∃ Q, Comes texts envs (fun th => ¬ HostPart P th) P
          (execOp env' P.shared e).2 Q := by
        cases e with
        | createClient target =>
            exact comes_client hgrounds h.roomy hopens.1 hopens.2.1 hopens.2.2 env'
        | findClient | readOwner | invoke | invokeAsync =>
            exact ⟨P, System.reaches_refl h.roomy⟩
        | _ => cases hopens
      obtain ⟨Q, hcomes⟩ := hcomes
      refine ⟨Q, h.hostStep rfl hcomes fun p hp => ?_, hcomes⟩
      obtain rfl := Option.some.inj hp
      refine .own ?_
      rw [hcomes.shared]
      exact hnext env'
  | @inside id th hth htask hepoch β r g hprog f hp =>
      cases r with
      | ret value => cases hp
      | op e' r =>
          cases hp
          have hcomes : Comes texts envs (fun th => ¬ HostPart P th) P
              (execOp env' P.shared e).2 _ :=
            System.reaches_act h.roomy hth hepoch hprog
              (fun hkeep => hkeep ⟨htask, hepoch⟩) henv
          refine ⟨_, h.hostStep rfl hcomes fun p hp => ?_, hcomes⟩
          obtain rfl := Option.some.inj hp
          exact .inside (System.put_same ..) htask hepoch rfl rfl

omit [Base64] in
/-- The worker goes on, and the host's call stands where it stood. -/
theorem Simulates.working (hgrounds : Grounds texts goes envs) {P : GifterPool} {N : Node}
    (h : Simulates P N) {turns : Nat} {trace : Trace} {e : Op} {next : Answer e → Prog Unit}
    (hworker : N.worker = some ⟨turns, trace, .op e next⟩) {env : Env}
    (hgoes : goes env N.shared e) :
    ∃ Q, Simulates Q { N with
        shared := (execOp env N.shared e).2
        worker := some ⟨turns, trace ++ [⟨e, (execOp env N.shared e).1⟩],
          next (execOp env N.shared e).1⟩ } ∧
      Comes texts envs (fun th => ¬ System.Part IsHandle P.epoch th) P
        (execOp env N.shared e).2 Q := by
  obtain ⟨ids, hfollows⟩ := h.worker _ hworker
  obtain ⟨he, hnext⟩ := h.requesting _ hworker
  obtain ⟨env', henv, hexec⟩ := hgrounds.exec env N.shared e hgoes
  rw [← hexec, ← h.shared]
  have hspawn : ∀ id task, IsHandle task → Within texts envs (.spawn id task) := by
    intro id task htask
    cases task with
    | handle buf => trivial
    | contextReady => cases htask
    | serve argsJson => cases htask
  obtain ⟨Q, hcomes, ids', hfollows'⟩ := hfollows.step
    (fun e env s he => OnBridge.idle e env s he) hspawn h.roomy (fun _ => henv)
  refine ⟨Q, ⟨hcomes.shared, hcomes.roomy, fun p hp => ?_, fun w hw => ?_, fun w hw => ?_⟩,
    hcomes⟩
  · cases h.host p hp with
    | own hsafe =>
        refine .own (hsafe.stable SameSetup.trans ?_)
        rw [hcomes.shared]
        exact sameSetup_requesting he env' P.shared
    | inside hth htask hepoch hprog hp =>
        have hth' := hcomes.threads _ _ hth fun hpart => htask hpart.1
        exact .inside hth' htask (hepoch.trans hcomes.epoch.symm) hprog hp
  · obtain rfl := Option.some.inj hw
    exact hnext _
  · obtain rfl := Option.some.inj hw
    exact ⟨ids', hfollows'⟩

/-- Each step of the process, the pool makes in steps of its own, none of them a restart;
the threads of earlier processes stay as they are. -/
theorem Simulates.step (hgrounds : Grounds texts goes envs) {P : GifterPool} {N N' : Node}
    (h : Simulates P N) (hstep : NodeStepIn texts goes N N') : ∃ Q, Simulates Q N' ∧
      Comes texts envs (fun th => th.epoch ≠ P.epoch) P N'.shared Q := by
  have hstays : Comes texts envs (fun th => th.epoch ≠ P.epoch) P N.shared P := by
    rw [← h.shared]
    exact System.reaches_refl h.roomy
  cases hstep with
  | begins _ call htexts =>
      obtain ⟨Q, hQ, hcomes⟩ := h.begins call htexts
      exact ⟨Q, hQ, hcomes.weaken fun _ hne hpart => hne hpart.2⟩
  | calling hcall env hgoes =>
      obtain ⟨Q, hQ, hcomes⟩ := h.calling hgrounds hcall hgoes
      exact ⟨Q, hQ, hcomes.weaken fun _ hne hpart => hne hpart.2⟩
  | returns _ => exact ⟨P, ⟨h.shared, h.roomy, nofun, h.requesting, h.worker⟩, hstays⟩
  | spawned _ _ turns =>
      refine ⟨P, ⟨h.shared, h.roomy, h.host, fun w hw => ?_, fun w hw => ?_⟩, hstays⟩
      · obtain rfl := Option.some.inj hw
        exact (workerLoop_runs turns).only (fun _ he => he.requesting)
          fun _ htask => handle_requesting htask
      · obtain rfl := Option.some.inj hw
        exact ⟨[], .between (workerLoop_runs turns) .nil⟩
  | working hworker env hgoes =>
      obtain ⟨Q, hQ, hcomes⟩ := h.working hgrounds hworker hgoes
      exact ⟨Q, hQ, hcomes.weaken fun _ hne hpart => hne hpart.2⟩

/-- The pool stands where the network's gifter stands, and each of its processes took up
the requests of the worker that the gifter had then. -/
structure Refines (P : GifterPool) (net : Network) : Prop where
  simulates : Simulates P net.node
  epoch : P.epoch = net.past.length
  past : ∀ (k : Nat) (trace : Trace), net.past[k]? = some trace →
    ∃ ids, System.Woven OnBridge (System.Part IsHandle k) P trace ids

omit [Base64] in
/-- The present worker is woven of requests too. -/
theorem Refines.workers {P : GifterPool} {net : Network} (h : Refines P net) {k : Nat}
    {trace : Trace} (htrace : net.workers[k]? = some trace) :
    ∃ ids, System.Woven OnBridge (System.Part IsHandle k) P trace ids := by
  rw [Network.workers, List.getElem?_append] at htrace
  split at htrace
  · exact h.past k trace htrace
  · rename_i hk
    rw [List.getElem?_singleton] at htrace
    split at htrace
    · rename_i hlast
      obtain rfl := Option.some.inj htrace
      have hepoch : P.epoch = k := by
        rw [h.epoch]
        omega
      cases hworker : net.node.worker with
      | none =>
          rw [Node.workerTrace, hworker]
          exact ⟨[], .nil⟩
      | some w =>
          obtain ⟨ids, hfollows⟩ := h.simulates.worker w hworker
          rw [Node.workerTrace, hworker, ← hepoch]
          exact ⟨ids, hfollows.woven⟩
    · cases htrace

theorem Refines.nodeStep (hgrounds : Grounds texts goes envs) {P : GifterPool}
    {net net' : Network} (h : Refines P net) (hstep : NodeStepIn texts goes net.node net'.node)
    (hpast : net'.past = net.past) :
    ∃ actions, (∀ action ∈ actions, Within texts envs action) ∧
      Refines (gifter.run P actions) net' := by
  obtain ⟨Q, hQ, hcomes⟩ := h.simulates.step hgrounds hstep
  obtain ⟨actions, hwithin, rfl⟩ := hcomes.run
  refine ⟨actions, hwithin, hQ, ?_, fun k trace htrace => ?_⟩
  · rw [hpast, hcomes.epoch, h.epoch]
  · rw [hpast] at htrace
    obtain ⟨ids, hwoven⟩ := h.past k trace htrace
    have hk := (List.getElem?_eq_some_iff.mp htrace).1
    refine ⟨ids, hwoven.mono fun id th hth hpart => hcomes.threads id th hth ?_⟩
    rw [hpart.2, h.epoch]
    omega

omit [Base64] in
/-- A crash is a restart of the pool. -/
theorem Refines.crashes {P : GifterPool} {net : Network} (h : Refines P net) :
    Refines (gifter.run P [.restart])
      { net with node := .new net.node.shared.files, past := net.workers } where
  simulates := by
    refine simulates_new ?_ h.simulates.roomy
    rw [← h.simulates.shared]
    rfl
  epoch := by
    change P.epoch + 1 = net.workers.length
    simp [h.epoch, Network.workers]
  past k trace htrace := by
    obtain ⟨ids, hwoven⟩ := h.workers htrace
    exact ⟨ids, hwoven.congr fun _ _ => rfl⟩

theorem Refines.step (hgrounds : Grounds texts goes envs) {P : GifterPool} {net net' : Network}
    (h : Refines P net) (hstep : NetStepIn texts goes net net') :
    ∃ actions, (∀ action ∈ actions, Within texts envs action) ∧
      Refines (gifter.run P actions) net' := by
  cases hstep with
  | around _ hnode hpast =>
      refine ⟨[], by simp, ⟨?_, ?_, ?_⟩⟩
      · rw [hnode]
        exact h.simulates
      · rw [hpast]
        exact h.epoch
      · rw [hpast]
        exact h.past
  | acts _ hnode hpast => exact h.nodeStep hgrounds hnode hpast
  | crashes => exact ⟨[.restart], by simp [Within], h.crashes⟩

theorem refines_run (hgrounds : Grounds texts goes envs) {files : String → Option String}
    {net : Network} (hrun : NetRunIn texts goes (.start files) net) :
    ∃ actions, (∀ action ∈ actions, Within texts envs action) ∧
      Refines (gifter.run (Pool.initial { files := files }) actions) net := by
  induction hrun with
  | refl =>
      refine ⟨[], by simp, simulates_new rfl (System.roomy_initial _), rfl, fun k trace htrace => ?_⟩
      simp [Network.start] at htrace
  | tail _ hstep ih =>
      obtain ⟨actions, hwithin, hrefines⟩ := ih
      obtain ⟨more, hmore, hnext⟩ := hrefines.step hgrounds hstep
      refine ⟨actions ++ more, ?_, ?_⟩
      · exact List.forall_mem_append.mpr ⟨hwithin, hmore⟩
      · rw [System.run_append]
        exact hnext

/-- The gifter of every run of the network, crashes included, is a pool: there are decisions
by which the pool reaches the same statics and files, has been restarted as often, and has
done what each worker did, request by request, in threads of the worker's process. -/
theorem network_refines {files : String → Option String} {net : Network}
    (hrun : NetRun (.start files) net) :
    ∃ actions P, P = gifter.run (Pool.initial { files := files }) actions ∧
      P.shared = net.node.shared ∧ P.epoch = net.past.length ∧
      ∀ (k : Nat) (trace : Trace), net.workers[k]? = some trace →
        ∃ ids, System.Woven OnBridge (System.Part IsHandle k) P trace ids := by
  obtain ⟨actions, -, hrefines⟩ := refines_run grounds_true (netRunIn_true hrun)
  exact ⟨actions, _, rfl, hrefines.simulates.shared, hrefines.epoch,
    fun k trace htrace => hrefines.workers htrace⟩

end Simulation

open Platform in
theorem network_refines_open : ∃ net v, NetRun (.start fun _ => none) net ∧
    net.told 0 = some (.ok v) ∧
    ∃ actions P, P = gifter.run (Pool.initial { files := fun _ => none }) actions ∧
      P.shared = net.node.shared ∧ P.epoch = net.past.length ∧
      ∀ (k : Nat) (trace : Trace), net.workers[k]? = some trace →
        ∃ ids, System.Woven OnBridge (System.Part IsHandle k) P trace ids := by
  obtain ⟨hlibp2p, hrln⟩ := openShared_clients fun _ => none
  obtain ⟨v, trace, stream, htells⟩ := NetRun.tells (openNetwork (fun _ => none) 1) 0 5 rfl rfl
    hrln hlibp2p rfl rfl rfl
  have hrun := (netRun_open (fun _ => none) 1).trans htells
  exact ⟨_, v, hrun, rfl, network_refines hrun⟩

end RlnGifter
