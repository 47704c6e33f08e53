/-
Replay protection as a process with its one worker has it: a key on which a request of
the worker was granted is reserved for no later one.
-/
import RlnGifter.Conversations
import RlnGifter.Opened
import RlnGifter.Replay

namespace RlnGifter

open Program

/-- One more element stands at the end of a list, or it is what the list is cut at. -/
theorem concat_eq_append_cons {α : Type} {front before after : List α} {last x : α}
    (h : front ++ [last] = before ++ x :: after) :
    (after = [] ∧ front = before ∧ last = x) ∨
      ∃ after', after = after' ++ [last] ∧ front = before ++ x :: after' := by
  rcases List.eq_nil_or_concat' after with rfl | ⟨after', y, rfl⟩
  · obtain ⟨rfl, hlast⟩ := List.append_inj' h rfl
    exact Or.inl ⟨rfl, rfl, (List.cons.inj hlast).1⟩
  · have h' : front ++ [last] = (before ++ x :: after') ++ [y] := by simpa using h
    obtain ⟨rfl, hlast⟩ := List.append_inj' h' rfl
    obtain ⟨rfl, -⟩ := List.cons.inj hlast
    exact Or.inr ⟨after', rfl, rfl⟩

/-- A suffix without `x` is one of what stands behind `x`. -/
theorem suffix_of_not_mem {α : Type} {before after front back : List α} {x : α}
    (h : before ++ x :: after = front ++ back) (hx : x ∉ back) :
    ∃ middle, after = middle ++ back := by
  rcases List.append_eq_append_iff.mp h with ⟨middle, rfl, hcut⟩ | ⟨middle, -, hcut⟩
  · cases middle with
    | nil =>
        rw [List.nil_append] at hcut
        exact absurd (hcut ▸ List.mem_cons_self) hx
    | cons y middle =>
        obtain ⟨-, rfl⟩ := List.cons.inj hcut
        exact ⟨middle, rfl⟩
  · exact absurd (hcut ▸ List.mem_append_right _ List.mem_cons_self) hx

section Host

variable [SerdeJson] [CaseTables] [Base64]

/-- The host neither reserves a key nor takes one out of the store. -/
theorem hostBody_quiet (call : HostCall) :
    (hostBody call).Only fun e => isStoreOp e = false := by
  cases call with
  | contextReady =>
      refine only_bind (only_mono ?_ (init_only _)) fun _ => only_ret _
      rintro e (rfl | he)
      · rfl
      · exact he.quiet
  | serve argsJson =>
      refine only_bind (only_of_after fun trace e next h => ?_) fun _ => only_ret _
      exact (serve_quiet (serve_after h)).2 e rfl
  | request argsJson =>
      exact only_bind (only_mono (fun _ he => he.quiet) (request_only _ _)) fun _ => only_ret _

end Host

section Worker

variable [SerdeJson] [CaseTables] [Base64]

/-- What the traces of a worker keep to: what is written on a stream answers it; a key is
rolled back by the request in progress, and reserved again only after that. -/
structure WellKept (trace : Trace) : Prop where
  writes : ∀ before e answer after, trace = before ++ ⟨e, answer⟩ :: after → ¬ OffWrite e →
    ∃ streamId buf resp earlier handled, e = writeCall streamId resp.encode ∧
      Answering before streamId buf resp earlier handled
  releases : ∀ before key after, trace = before ++ ⟨.release key, ()⟩ :: after →
    ∃ earlier handled buf q, before = earlier ++ handled ∧
      (handleRequest buf).After handled q ∧ q.pending = some (.release key)
  once : ∀ key before between after,
    trace = before ++ ⟨.reserve key, false⟩ :: (between ++ ⟨.reserve key, false⟩ :: after) →
    ⟨.release key, ()⟩ ∈ between

/-- What the worker has reserved and not rolled back is in the store. -/
def Reserves (s : Shared) (trace : Trace) : Prop :=
  ∀ key before after, trace = before ++ ⟨.reserve key, false⟩ :: after →
    ⟨.release key, ()⟩ ∉ after → IsConsumed s.consumed key

omit [SerdeJson] [Base64] in
theorem Reserves.exec {s : Shared} {trace : Trace} (h : Reserves s trace) {e : Op}
    (he : isStoreOp e = false) (env : Env) : Reserves (execOp env s e).2 trace := by
  intro key before after htrace hkept
  refine isConsumed_exec ?_ (h key before after htrace hkept)
  rintro rfl
  cases he

omit [SerdeJson] [Base64] in
theorem Reserves.step {s : Shared} {trace : Trace} (h : Reserves s trace) (e : Op)
    (env : Env) : Reserves (execOp env s e).2 (trace ++ [⟨e, (execOp env s e).1⟩]) := by
  intro key before after htrace hkept
  rcases concat_eq_append_cons htrace with ⟨-, -, hevent⟩ | ⟨after', rfl, hbefore⟩
  · exact (exec_reserved hevent).2
  · rw [List.mem_append, List.mem_singleton, not_or] at hkept
    refine isConsumed_exec ?_ (h key before after' hbefore hkept.1)
    rintro rfl
    exact hkept.2 rfl

theorem wellKept_nil : WellKept [] :=
  ⟨by simp, by simp, by simp⟩

theorem WellKept.step {s : Shared} {trace : Trace} (h : WellKept trace)
    (hreserves : Reserves s trace) {e : Op} (hact : WorkerAct trace e) (env : Env) :
    WellKept (trace ++ [⟨e, (execOp env s e).1⟩]) := by
  constructor
  · intro before e' answer after htrace hwrites
    rcases concat_eq_append_cons htrace with ⟨-, rfl, hevent⟩ | ⟨after', -, hbefore⟩
    · obtain ⟨rfl, -⟩ := Sigma.mk.inj hevent
      cases hact with
      | bridging he => exact absurd he.1 hwrites
      | handling earlier handled htrace buf q hrun hpending =>
          obtain ⟨next, rfl⟩ := pending_eq_some.mp hpending
          have hasks := (only_after (handleRequest_asksModule buf) hrun).2
          exact absurd hasks.1.offWrite hwrites
      | writing streamId buf resp earlier handled he hanswering =>
          exact ⟨streamId, buf, resp, earlier, handled, he, hanswering⟩
    · exact h.writes before e' answer after' hbefore hwrites
  · intro before key after htrace
    rcases concat_eq_append_cons htrace with ⟨-, rfl, hevent⟩ | ⟨after', -, hbefore⟩
    · obtain ⟨rfl, -⟩ := Sigma.mk.inj hevent
      cases hact with
      | bridging he => cases he.2
      | handling earlier handled htrace buf q hrun hpending =>
          exact ⟨earlier, handled, buf, q, htrace, hrun, hpending⟩
      | writing streamId buf resp earlier handled he => cases he
    · exact h.releases before key after' hbefore
  · intro key before between after htrace
    have htrace' : trace ++ [⟨e, (execOp env s e).1⟩] =
        (before ++ ⟨.reserve key, false⟩ :: between) ++ ⟨.reserve key, false⟩ :: after := by
      simpa using htrace
    rcases concat_eq_append_cons htrace' with ⟨-, hbefore, hevent⟩ | ⟨after', -, hbefore⟩
    · -- a fresh reservation is of a key that is not in the store
      by_contra hkept
      exact (exec_reserved hevent).1 (hreserves key before between hbefore hkept)
    · exact h.once key before between after' (by simpa using hbefore)

/-- Nothing is written while a request is handled. -/
theorem write_not_mem {buf : List UInt8} {handled : Trace} {q : Prog RlnGifterResponse}
    (h : (handleRequest buf).After handled q) (streamId : UInt64) (bytes : List UInt8)
    (outcome : Outcome) :
    (⟨writeCall streamId bytes, outcome⟩ : Event Answer) ∉ handled := by
  intro hmem
  exact ((only_after (handleRequest_asksModule buf) h).1 _ hmem).offWrite rfl rfl

/-- Once a request is granted and its response written, its key is not reserved again. -/
theorem WellKept.granted {trace before after : Trace} {streamId : UInt64}
    {buf : List UInt8} {resp : RlnGifterResponse} {earlier handled : Trace} {key : String}
    {outcome : Outcome} (h : WellKept trace)
    (htrace : trace = before ++ ⟨writeCall streamId resp.encode, outcome⟩ :: after)
    (hanswering : Answering before streamId buf resp earlier handled)
    (hgranted : Granted buf handled) (hcarries : Carries buf handled key) :
    ⟨.reserve key, false⟩ ∉ after := by
  intro hagain
  obtain ⟨⟨looked, rfl, hlooked⟩, -, hrun⟩ := hanswering
  obtain ⟨hreserved, hkept⟩ := hgranted.holds (handleRequest_after hrun) hcarries
  obtain ⟨first, last, rfl⟩ := List.append_of_mem hreserved
  -- the first later reservation of the key, and the release that comes before it
  obtain ⟨between, rest, rfl, hfirst⟩ := List.eq_append_cons_of_mem hagain
  have hreleased := h.once key (earlier ++ first)
    (last ++ (looked ++ ⟨writeCall streamId resp.encode, outcome⟩ :: between)) rest
    (by rw [htrace]; simp)
  simp only [List.mem_append, List.mem_cons] at hreleased hkept
  rcases hreleased with hreleased | hreleased | hreleased | hreleased
  · exact hkept (Or.inr (Or.inr hreleased))
  · cases hlooked _ hreleased
  · cases hreleased
  · obtain ⟨front, back, rfl⟩ := List.append_of_mem hreleased
    obtain ⟨earlier', handled', buf', q, hcut, hrun', hpending⟩ := h.releases
      (earlier ++ (first ++ ⟨.reserve key, false⟩ :: last ++ looked) ++
        ⟨writeCall streamId resp.encode, outcome⟩ :: front) key
      (back ++ ⟨.reserve key, false⟩ :: rest) (by rw [htrace]; simp)
    -- the releasing request was taken up after the response, and so it reserved the key
    obtain ⟨middle, rfl⟩ := suffix_of_not_mem hcut
      (write_not_mem hrun' streamId resp.encode outcome)
    have hphase := handle_storePhase (handleRequest_after hrun')
    rw [hpending] at hphase
    have hmem := (holds_of_release hphase).1
    exact hfirst (List.mem_append_left _ (List.mem_append_right _ hmem))

/-- Two requests that a worker answered were not granted on the same key. -/
theorem WellKept.granted_once {trace before between after : Trace}
    {streamId streamId' : UInt64} {buf buf' : List UInt8} {resp resp' : RlnGifterResponse}
    {earlier handled earlier' handled' : Trace} {key : String} {outcome outcome' : Outcome}
    (h : WellKept trace)
    (htrace : trace = before ++ ⟨writeCall streamId resp.encode, outcome⟩ :: (between ++
      ⟨writeCall streamId' resp'.encode, outcome'⟩ :: after))
    (hanswering : Answering before streamId buf resp earlier handled)
    (hanswering' : Answering (before ++ ⟨writeCall streamId resp.encode, outcome⟩ :: between)
      streamId' buf' resp' earlier' handled')
    (hgranted : Granted buf handled) (hgranted' : Granted buf' handled')
    (hcarries : Carries buf handled key) (hcarries' : Carries buf' handled' key) : False := by
  obtain ⟨⟨looked, hsplit, hlooked⟩, -, hrun⟩ := hanswering'
  have hwrite : ⟨writeCall streamId resp.encode, outcome⟩ ∉ handled' ++ looked := by
    rw [List.mem_append]
    rintro (hmem | hmem)
    · exact write_not_mem hrun streamId resp.encode outcome hmem
    · exact absurd (hlooked _ hmem) id
  obtain ⟨middle, rfl⟩ := suffix_of_not_mem hsplit hwrite
  have hreserved := (hgranted'.holds (handleRequest_after hrun) hcarries').1
  exact h.granted htrace hanswering hgranted hcarries (by simp [hreserved])

/-- What the runs of a process keep about its worker and its keys. -/
structure WorkerKept (N : Node) : Prop where
  host : ∀ p, N.call = some p → p.Only fun e => isStoreOp e = false
  after : ∀ w, N.worker = some w → (workerLoop w.turns).After w.trace w.prog
  kept : ∀ w, N.worker = some w → WellKept w.trace
  reserves : ∀ w, N.worker = some w → Reserves N.shared w.trace

theorem workerKept_new (files : String → Option String) : WorkerKept (.new files) :=
  ⟨nofun, nofun, nofun, nofun⟩

theorem WorkerKept.step {N N' : Node} (h : WorkerKept N) (hstep : NodeStep N N') :
    WorkerKept N' := by
  cases hstep with
  | begins hcall call =>
      refine ⟨fun p hp => ?_, h.after, h.kept, h.reserves⟩
      obtain rfl := Option.some.inj hp
      exact hostBody_quiet call
  | calling hcall env =>
      obtain ⟨he, hnext⟩ := h.host _ hcall
      refine ⟨fun p hp => ?_, h.after, h.kept, fun w hw => (h.reserves w hw).exec he env⟩
      obtain rfl := Option.some.inj hp
      exact hnext _
  | returns hcall => exact ⟨nofun, h.after, h.kept, h.reserves⟩
  | spawned hworker hspawned turns =>
      refine ⟨h.host, fun w hw => ?_, fun w hw => ?_, fun w hw => ?_⟩
      · obtain rfl := Option.some.inj hw
        exact after_nil.mpr rfl
      · obtain rfl := Option.some.inj hw
        exact wellKept_nil
      · obtain rfl := Option.some.inj hw
        intro key before after htrace
        simp at htrace
  | working hworker env =>
      have hafter := h.after _ hworker
      have hact := workerLoop_act hafter
      refine ⟨h.host, fun w hw => ?_, fun w hw => ?_, fun w hw => ?_⟩
      · obtain rfl := Option.some.inj hw
        exact after_concat hafter _
      · obtain rfl := Option.some.inj hw
        exact (h.kept _ hworker).step (h.reserves _ hworker) hact env
      · obtain rfl := Option.some.inj hw
        exact (h.reserves _ hworker).step _ env

theorem workerKept_run {ok : Node → Prop} {files : String → Option String} {N : Node}
    (hrun : NodeRun ok (.new files) N) : WorkerKept N :=
  hrun.invariant WorkerKept (fun _ _ _ h hstep => h.step hstep) (workerKept_new files)

end Worker

end RlnGifter
