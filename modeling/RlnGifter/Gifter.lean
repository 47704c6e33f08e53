/-
The gifter process as a pool of threads: the host's calls on the owner thread
and any number of `handle_request` executions, interleaved at their operations.
What a request does to the replay store is read off its trace.
-/
import RlnGifter.ServeRuns
import RlnGifter.ServerRuns

namespace RlnGifter

open Program

/-- What the host or the worker starts. -/
inductive Task where
  | contextReady
  | serve (argsJson : String)
  | handle (buf : List UInt8)

/-- What a task ends with. -/
inductive Finished where
  | ready
  | served (result : Except String Value)
  | responded (response : RlnGifterResponse)

section Gifter

variable [SerdeJson] [CaseTables]

/-- The code a task runs. -/
def taskBody : Task → Prog Finished
  | .contextReady => do
      init [libp2pModule, rlnModule]
      return .ready
  | .serve argsJson => return .served (← serve argsJson)
  | .handle buf => return .responded (← handleRequest buf)

/-- The gifter process. -/
def gifter : System Op Answer Shared Task Finished Env where
  exec := execOp
  body := taskBody
  reboot := reboot

/-- The states of the gifter process. -/
abbrev GifterPool : Type := Pool Op Answer Shared Task Finished

/-- The threads of the gifter process. -/
abbrev GifterThread : Type := Thread Op Answer Task Finished

/-- The pool after thread `id` performed `e`. -/
abbrev actPool (P : GifterPool) (id : Nat) (th : GifterThread) (e : Op)
    (next : Answer e → Prog Finished) (env : Env) : GifterPool :=
  System.put P (execOp env P.shared e).2 id
    (th.advance ⟨e, (execOp env P.shared e).1⟩ (next (execOp env P.shared e).1))

/-- What a thread that handles a request has done. -/
theorem handle_body_after {buf : List UInt8} {trace : Trace} {q : Prog Finished}
    (h : (taskBody (.handle buf)).After trace q) :
    ∃ q', HandleRun buf trace q' ∧ q'.pending = q.pending ∧
      ∀ finished, q = .ret finished →
        ∃ response, q' = .ret response ∧ finished = .responded response := by
  rw [taskBody] at h
  rcases bind_after h with ⟨e, next, hrun, rfl⟩ | ⟨first, last, response, rfl, hrun,
    hlast⟩
  · exact ⟨_, handleRequest_after hrun, rfl, fun _ hq => by cases hq⟩
  · obtain ⟨rfl, rfl⟩ := ret_after.mp hlast
    rw [List.append_nil]
    refine ⟨_, handleRequest_after hrun, rfl, ?_⟩
    intro finished hq
    exact ⟨response, rfl, (Program.ret.inj hq).symm⟩

end Gifter

section Store

/-- The operations of a request on the replay store. -/
def isStoreOp : Op → Bool
  | .reserve _ | .release _ | .append _ _ => true
  | _ => false

/-- What a trace did to the replay store. -/
def storeEvents (trace : Trace) : Trace :=
  trace.filter fun event => isStoreOp event.1

@[simp] theorem storeEvents_append (first second : Trace) :
    storeEvents (first ++ second) = storeEvents first ++ storeEvents second :=
  List.filter_append ..

theorem storeEvents_of_quiet {trace : Trace}
    (h : ∀ event ∈ trace, isStoreOp event.1 = false) : storeEvents trace = [] := by
  rw [storeEvents, List.filter_eq_nil_iff]
  intro event hevent
  rw [h event hevent]
  decide

theorem mem_storeEvents {trace : Trace} {event : Event Answer}
    (hop : isStoreOp event.1 = true) : event ∈ storeEvents trace ↔ event ∈ trace := by
  simp [storeEvents, hop]

theorem Lookup.quiet {e : Op} (h : Lookup e) : isStoreOp e = false := by
  cases e <;> first | rfl | cases h

theorem Calling.quiet {e : Op} (h : Calling e) : isStoreOp e = false := by
  cases e <;> first | rfl | cases h

theorem Mounting.quiet {e : Op} (h : Mounting e) : isStoreOp e = false := by
  rcases h with h | rfl | rfl | rfl
  · exact h.quiet
  · rfl
  · rfl
  · rfl

/-- The stages of a request in the store, by what it did there and what it is
about to do. -/
inductive StorePhase : Trace → Option Op → Prop where
  | before (pending : Option Op)
      (h : ∀ e, pending = some e → isStoreOp e = true → ∃ key, e = .reserve key) :
      StorePhase [] pending
  | used (key : String) : StorePhase [⟨.reserve key, true⟩] none
  | holding (key : String) (pending : Option Op)
      (h : ∀ e, pending = some e → isStoreOp e = true →
        e = .release key ∨ ∃ path, e = .append path key) :
      StorePhase [⟨.reserve key, false⟩] pending
  | released (key : String) :
      StorePhase [⟨.reserve key, false⟩, ⟨.release key, ()⟩] none
  | kept (key path : String) (written : Bool) :
      StorePhase [⟨.reserve key, false⟩, ⟨.append path key, written⟩] none

theorem StorePhase.of_release {events : Trace} {key : String}
    (h : StorePhase events (some (.release key))) :
    events = [⟨.reserve key, false⟩] := by
  cases h with
  | before _ hnext =>
      obtain ⟨key', heq⟩ := hnext _ rfl rfl
      cases heq
  | holding key' _ hnext =>
      rcases hnext _ rfl rfl with heq | ⟨path, heq⟩
      · cases heq
        rfl
      · cases heq

theorem StorePhase.of_append {events : Trace} {path key : String}
    (h : StorePhase events (some (.append path key))) :
    events = [⟨.reserve key, false⟩] := by
  cases h with
  | before _ hnext =>
      obtain ⟨key', heq⟩ := hnext _ rfl rfl
      cases heq
  | holding key' _ hnext =>
      rcases hnext _ rfl rfl with heq | ⟨path', heq⟩
      · cases heq
      · cases heq
        rfl

theorem StorePhase.of_used {events : Trace} {pending : Option Op} {key : String}
    (h : StorePhase events pending) (hused : ⟨.reserve key, true⟩ ∈ events) :
    events = [⟨.reserve key, true⟩] := by
  cases h with
  | before => cases hused
  | used key' =>
      cases List.mem_singleton.mp hused
      rfl
  | holding => simp at hused
  | released => simp at hused
  | kept => simp at hused

variable [SerdeJson] {cfg : ServerCfg} {req : RlnGifterRequest} {authType : String}
  {rate : UInt64} {idc : List UInt8}

theorem Asking.quiet {e : Op} (h : Asking cfg req authType rate e) :
    isStoreOp e = false := by
  rcases h with h | ⟨verifier, verifierConfig, verifyJson, -, -, rfl⟩
  · exact h.quiet
  · rfl

theorem Polling.quiet {e : Op} (h : Polling cfg idc e) : isStoreOp e = false := by
  rcases h with h | rfl | rfl
  · exact h.quiet
  · rfl
  · rfl

theorem register_quiet {trace : Trace}
    {q : Prog (Except RegisterError MembershipAllocationSuccess)}
    (h : (register cfg idc rate).After trace q) :
    storeEvents trace = [] ∧ ∀ e, q.pending = some e → isStoreOp e = false := by
  have hquiet : ∀ e, Polling cfg idc e ∨ e = registerCall cfg idc rate →
      isStoreOp e = false := by
    rintro e (he | rfl)
    · exact he.quiet
    · rfl
  obtain ⟨htrace, hq⟩ := only_after register_only h
  constructor
  · exact storeEvents_of_quiet fun event hevent => hquiet _ (htrace event hevent)
  · intro e he
    obtain ⟨next, rfl⟩ := pending_eq_some.mp he
    exact hquiet e hq.1

variable [CaseTables]

/-- What authentication has done to the store: nothing yet, found its key used,
or reserved it. -/
theorem authenticate_store {asked : Trace}
    {q : Prog (Except RlnGifterResponse (Option String))}
    (h : AuthRun cfg req authType rate asked q) :
    (storeEvents asked = [] ∧ (∀ key, q = .ret (.ok key) → key = none) ∧
        ∀ e, q.pending = some e → isStoreOp e = true → ∃ key, e = .reserve key) ∨
      (∃ key response, storeEvents asked = [⟨.reserve key, true⟩] ∧
        q = .ret (.error response)) ∨
      ∃ key, storeEvents asked = [⟨.reserve key, false⟩] ∧
        q = .ret (.ok (some key)) := by
  have hquiet : ∀ trace : Trace,
      (∀ event ∈ trace, Asking cfg req authType rate event.1) →
        storeEvents trace = [] := fun trace htrace =>
    storeEvents_of_quiet fun event hevent => (htrace event hevent).quiet
  cases h with
  | opened hopen => exact Or.inl ⟨rfl, by simp, by simp⟩
  | asking _ hasked e next he =>
      refine Or.inl ⟨hquiet _ hasked, by simp, ?_⟩
      intro e' he' hstore
      obtain rfl := Option.some.inj he'
      rw [he.quiet] at hstore
      cases hstore
  | refused _ hasked _ msg => exact Or.inl ⟨hquiet _ hasked, by simp, by simp⟩
  | accepted _ verifier verdict hverified hnul =>
      exact Or.inl ⟨hquiet _ hverified.asking, by simp, by simp⟩
  | reserving _ verifier verdict hverified nul hnul hformed next =>
      refine Or.inl ⟨hquiet _ hverified.asking, by simp, ?_⟩
      intro e' he' _
      exact ⟨_, (Option.some.inj he').symm⟩
  | used asked verifier verdict hverified nul hnul hformed =>
      refine Or.inr (Or.inl ⟨replayKey authType (normalize nul), _, ?_, rfl⟩)
      rw [storeEvents_append, hquiet _ hverified.asking]
      rfl
  | reserved asked verifier verdict hverified nul hnul hformed =>
      refine Or.inr (Or.inr ⟨replayKey authType (normalize nul), ?_, rfl⟩)
      rw [storeEvents_append, hquiet _ hverified.asking]
      rfl

/-- A finished authentication reserved the key it goes on with. -/
theorem authenticate_reserved {asked : Trace} {key : Option String}
    (h : (authenticate cfg req authType rate).After asked (.ret (.ok key))) :
    storeEvents asked = (key.map fun k => ⟨.reserve k, false⟩).toList := by
  rcases authenticate_store (authenticate_after h) with ⟨hstore, hkey, -⟩ |
    ⟨k, response, -, heq⟩ | ⟨k, hstore, heq⟩
  · rw [hstore, hkey key rfl]
    rfl
  · cases heq
  · cases heq
    exact hstore

theorem handle_storePhase {buf : List UInt8} {trace : Trace}
    {q : Prog RlnGifterResponse} (h : HandleRun buf trace q) :
    StorePhase (storeEvents trace) q.pending := by
  have hlock : ∀ (server : Option ServerCfg) (rest : Trace),
      storeEvents (⟨.lockServer, server⟩ :: rest) = storeEvents rest := fun _ _ => rfl
  cases h with
  | malformed e hdecode => exact .before _ (by simp)
  | missized req hdecode hlength => exact .before _ (by simp)
  | starting req hreq next =>
      refine .before _ ?_
      intro e he hstore
      obtain rfl := Option.some.inj he
      cases hstore
  | unconfigured req hreq => exact .before _ (by simp)
  | authenticating req hreq cfg asked e next hauth next' =>
      rw [hlock]
      rcases authenticate_store (authenticate_after hauth) with ⟨hstore, -, hnext⟩ |
        ⟨k, response, -, heq⟩ | ⟨k, -, heq⟩
      · rw [hstore]
        exact .before _ hnext
      · cases heq
      · cases heq
  | refused req hreq cfg asked response hauth =>
      rw [hlock]
      rcases authenticate_store (authenticate_after hauth) with ⟨hstore, -⟩ |
        ⟨k, _, hstore, -⟩ | ⟨k, -, heq⟩
      · rw [hstore]
        exact .before _ (by simp)
      · rw [hstore]
        exact .used k
      · cases heq
  | registering req hreq cfg asked key hauth called e next hregister next' =>
      obtain ⟨hcalled, hnext⟩ := register_quiet hregister
      have he : isStoreOp e = false := hnext e rfl
      rw [hlock, storeEvents_append, hcalled, authenticate_reserved hauth]
      cases key with
      | none => exact .before _ (by simp [he])
      | some key => exact .holding key _ (by simp [he])
  | settling req hreq cfg asked key hauth called r hregister last q hsettle =>
      rw [hlock, storeEvents_append, storeEvents_append, (register_quiet hregister).1,
        authenticate_reserved hauth, List.nil_append]
      rcases settle_after hsettle with ⟨rfl, ⟨-, rfl⟩ | ⟨e, next, hop, rfl⟩⟩ |
        ⟨e, answer, hop, rfl, rfl⟩
      · cases key with
        | none => exact .before _ (by simp)
        | some key => exact .holding key _ (by simp)
      · obtain ⟨k, rfl, h⟩ := settleOp_cases hop
        refine .holding k _ ?_
        intro e' he' _
        obtain rfl := Option.some.inj he'
        rcases h with ⟨rfl, -⟩ | ⟨rfl, -⟩
        · exact Or.inl rfl
        · exact Or.inr ⟨_, rfl⟩
      · obtain ⟨k, rfl, ⟨rfl, -⟩ | ⟨rfl, -⟩⟩ := settleOp_cases hop
        · exact .released k
        · exact .kept k _ answer

end Store

section Threads

variable [SerdeJson] [CaseTables]

/-- A thread that is running `serve`. -/
theorem serve_body_after {argsJson : String} {trace : Trace} {q : Prog Finished}
    (h : (taskBody (.serve argsJson)).After trace q) :
    ServeRun argsJson trace q.pending := by
  rw [taskBody] at h
  rcases bind_after h with ⟨e, next, hrun, rfl⟩ | ⟨first, last, result, rfl, hrun,
    hlast⟩
  · exact serve_after hrun
  · obtain ⟨rfl, rfl⟩ := ret_after.mp hlast
    rw [List.append_nil]
    exact serve_after hrun

omit [CaseTables] in
theorem serve_quiet {argsJson : String} {trace : Trace} {pending : Option Op}
    (h : ServeRun argsJson trace pending) :
    storeEvents trace = [] ∧ ∀ e, pending = some e → isStoreOp e = false := by
  cases h with
  | preparing _ hcalled _ hnext =>
      refine ⟨storeEvents_of_quiet fun event hevent => (hcalled event hevent).quiet, ?_⟩
      intro e he
      rcases hnext e he with hcall | ⟨a, -, rfl⟩
      · exact hcall.quiet
      · rfl
  | merged called hcalled a ha loaded cfg hpath htypes =>
      have hquiet := storeEvents_of_quiet fun event hevent =>
        (hcalled event hevent).quiet
      refine ⟨by rw [storeEvents_append, hquiet]; rfl, ?_⟩
      intro e he
      obtain rfl := Option.some.inj he
      rfl
  | mounting called hcalled a ha loaded cfg hpath htypes mounted hmounted _ hnext =>
      have hfirst := storeEvents_of_quiet fun event hevent =>
        (hcalled event hevent).quiet
      have hlast := storeEvents_of_quiet fun event hevent =>
        (hmounted event hevent).quiet
      refine ⟨?_, fun e he => (hnext e he).quiet⟩
      rw [storeEvents_append, storeEvents_append, hfirst, hlast]
      rfl

theorem contextReady_only :
    (taskBody .contextReady).Only fun e => e = .recordOwner ∨ Calling e :=
  only_bind (init_only _) fun _ => only_ret _

/-- Only requests touch the store. -/
theorem body_quiet {task : Task} {trace : Trace} {q : Prog Finished}
    (htask : ∀ buf, task ≠ .handle buf) (h : (taskBody task).After trace q) :
    storeEvents trace = [] ∧ ∀ e, q.pending = some e → isStoreOp e = false := by
  cases task with
  | contextReady =>
      have hquiet : ∀ e, (e = .recordOwner ∨ Calling e) → isStoreOp e = false := by
        rintro e (rfl | he)
        · rfl
        · exact he.quiet
      obtain ⟨htrace, hq⟩ := only_after contextReady_only h
      constructor
      · exact storeEvents_of_quiet fun event hevent => hquiet _ (htrace event hevent)
      · intro e he
        obtain ⟨next, rfl⟩ := pending_eq_some.mp he
        exact hquiet e hq.1
  | serve argsJson => exact serve_quiet (serve_body_after h)
  | handle buf => exact absurd rfl (htask buf)

/-- Where any thread stands in the store. -/
theorem body_storePhase {task : Task} {trace : Trace} {q : Prog Finished}
    (h : (taskBody task).After trace q) : StorePhase (storeEvents trace) q.pending := by
  by_cases htask : ∃ buf, task = .handle buf
  · obtain ⟨buf, rfl⟩ := htask
    obtain ⟨q', hrun, hpending, -⟩ := handle_body_after h
    rw [← hpending]
    exact handle_storePhase hrun
  · rw [not_exists] at htask
    obtain ⟨htrace, hnext⟩ := body_quiet htask h
    rw [htrace]
    refine .before _ ?_
    intro e he hstore
    rw [hnext e he] at hstore
    cases hstore

theorem thread_storePhase {P : GifterPool} (hP : gifter.WellTraced P) {id : Nat}
    {th : GifterThread} (hth : P.threads id = some th) :
    StorePhase (storeEvents th.trace) th.prog.pending :=
  body_storePhase (hP id th hth).1

/-- A thread that touched the store handles a request. -/
theorem handle_of_store {P : GifterPool} (hP : gifter.WellTraced P) {id : Nat}
    {th : GifterThread} (hth : P.threads id = some th) {event : Event Answer}
    (hevent : event ∈ th.trace) (hstore : isStoreOp event.1 = true) :
    ∃ buf, th.task = .handle buf := by
  by_contra htask
  rw [not_exists] at htask
  have hnone := (body_quiet htask (hP id th hth).1).1
  rw [← mem_storeEvents hstore, hnone] at hevent
  cases hevent

theorem handle_of_pending {P : GifterPool} (hP : gifter.WellTraced P) {id : Nat}
    {th : GifterThread} (hth : P.threads id = some th) {e : Op}
    (he : th.prog.pending = some e) (hstore : isStoreOp e = true) :
    ∃ buf, th.task = .handle buf := by
  by_contra htask
  rw [not_exists] at htask
  have hnone := (body_quiet htask (hP id th hth).1).2 e he
  rw [hstore] at hnone
  cases hnone

end Threads

end RlnGifter
