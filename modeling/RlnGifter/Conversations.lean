/-
What the worker writes on the streams.  A response is written on the stream its request
was read from, right after the request was handled.
-/
import RlnGifter.Streams

namespace RlnGifter

open Program

section Requests

/-- The methods that handling a request calls. -/
def AsksModule : Op → Prop
  | .invokeAsync _ method _ _ =>
      method = verifyMethod ∨ method = "register_member" ∨ method = "get_membership"
  | _ => True

theorem Lookup.asksModule {e : Op} (h : Lookup e) : AsksModule e := by
  cases e <;> trivial

theorem settle_asksModule {cfg : ServerCfg} {req : RlnGifterRequest} {key : Option String}
    {r : Except RegisterError MembershipAllocationSuccess} :
    (settle cfg req key r).Only AsksModule := by
  rw [settle_eq]
  cases hop : settleOp cfg key r with
  | none => trivial
  | some e =>
      obtain ⟨k, -, ⟨rfl, -⟩ | ⟨rfl, -⟩⟩ := settleOp_cases hop
      · exact ⟨trivial, fun _ => trivial⟩
      · exact ⟨trivial, fun _ => trivial⟩

variable [SerdeJson]

theorem register_asksModule {cfg : ServerCfg} {idc : List UInt8} {rate : UInt64} :
    (register cfg idc rate).Only AsksModule := by
  refine only_mono ?_ register_only
  rintro e ((he | rfl | rfl) | rfl)
  · exact he.asksModule
  · exact Or.inr (Or.inr rfl)
  · trivial
  · exact Or.inr (Or.inl rfl)

variable [CaseTables]

theorem authenticate_asksModule {cfg : ServerCfg} {req : RlnGifterRequest}
    {authType : String} {rate : UInt64} :
    (authenticate cfg req authType rate).Only AsksModule := by
  apply only_of_after
  intro trace e next h
  cases authenticate_after h with
  | asking _ _ _ _ he =>
      rcases he with he | ⟨verifier, verifierConfig, verifyJson, -, -, rfl⟩
      · exact he.asksModule
      · exact Or.inl rfl
  | reserving => trivial

theorem handleRequest_asksModule (buf : List UInt8) :
    (handleRequest buf).Only AsksModule := by
  rw [handleRequest]
  split
  · trivial
  · split
    · trivial
    · refine ⟨trivial, fun server => ?_⟩
      cases server with
      | none => trivial
      | some cfg =>
          apply only_bind authenticate_asksModule
          rintro (response | key)
          · trivial
          · exact only_bind register_asksModule fun _ => settle_asksModule

end Requests

section Calls

/-- An operation that writes nothing on a stream. -/
def OffWrite : Op → Prop
  | .invokeAsync target method _ _ => target = libp2pModule → method ≠ "streamWriteLpJson"
  | _ => True

theorem Lookup.offWrite {e : Op} (h : Lookup e) : OffWrite e := by
  cases e <;> trivial

theorem AsksModule.offWrite {e : Op} (h : AsksModule e) : OffWrite e := by
  cases e with
  | invokeAsync target method args timeoutMs =>
      rintro - rfl
      rcases h with h | h | h <;> exact absurd h (by decide)
  | _ => trivial

/-- An operation of the worker on the bridge that writes nothing. -/
def Bridging (e : Op) : Prop :=
  OffWrite e ∧ isStoreOp e = false

theorem Lookup.bridging {e : Op} (h : Lookup e) : Bridging e :=
  ⟨h.offWrite, h.quiet⟩

variable [SerdeJson] {method : String} {args : Value} {timeoutMs : Int}

/-- What a call to the bridge made off the owner thread has done. -/
theorem callLibp2p_worker_run {trace : Trace} {q : Prog (Except String Value)}
    (h : (callLibp2p .worker method args timeoutMs).After trace q) :
    CallRun libp2pModule method (SerdeJson.toText args) timeoutMs (libp2pResult method)
      trace q := by
  rw [callLibp2p] at h
  rcases bind_after h with ⟨e, next, hcall, rfl⟩ | ⟨first, second, v, rfl, hcall, h⟩
  · cases callJson_worker_after hcall with
    | running _ hfound _ _ he => exact .running _ hfound e _ he
  · obtain ⟨rfl, rfl⟩ := ret_after.mp h
    rw [List.append_nil]
    rcases (callJson_worker_after hcall).returned with ⟨hfound, msg, rfl⟩ |
      ⟨found, outcome, hfound, rfl, rfl⟩
    · exact .unsent _ hfound msg
    · exact .answered found hfound outcome

/-- A call of another method of the bridge writes nothing. -/
theorem callLibp2p_bridging (hmethod : method ≠ "streamWriteLpJson") :
    (callLibp2p .worker method args timeoutMs).Only Bridging := by
  apply only_of_after
  intro trace e next h
  cases callLibp2p_worker_run h with
  | running _ _ _ _ he =>
      rcases he with he | rfl
      · exact he.bridging
      · exact ⟨fun _ => hmethod, rfl⟩

end Calls

section Streams

variable [SerdeJson]

/-- The call that reads the request of a stream. -/
abbrev readCall (streamId : UInt64) : Op :=
  .invokeAsync libp2pModule "streamReadLpJson"
    (SerdeJson.toText (blob (.object [("streamId", .u64 streamId),
      ("maxSize", .u64 maxRpcSize), ("timeoutMs", .u64 readTimeoutMs)])))
    (readTimeoutMs.toNat + 10000)

variable [Base64]

/-- The call that writes bytes on a stream. -/
abbrev writeCall (streamId : UInt64) (bytes : List UInt8) : Op :=
  .invokeAsync libp2pModule "streamWriteLpJson"
    (SerdeJson.toText (blob (.object [("streamId", .u64 streamId),
      ("dataB64", .string (b64 bytes))])))
    (writeTimeoutMs.toNat + 10000)

/-- The outcome of a read gave these bytes. -/
def ReadGave (outcome : Outcome) (bytes : List UInt8) : Prop :=
  (libp2pResult "streamReadLpJson" outcome.seen).bind requestBytes = .ok bytes

/-- A read that gave a request is the last event of its trace. -/
theorem readStream_gave {streamId : UInt64} {trace : Trace} {read : Value}
    {buf : List UInt8} (h : (readStream streamId).After trace (.ret (.ok read)))
    (hbytes : requestBytes read = .ok buf) :
    ∃ before outcome, trace = before ++ [⟨readCall streamId, outcome⟩] ∧
      ReadGave outcome buf := by
  rcases (callLibp2p_worker_run h).returned with ⟨-, msg, heq⟩ |
    ⟨found, outcome, -, rfl, hresult⟩
  · cases heq
  · refine ⟨found, outcome, rfl, ?_⟩
    rw [ReadGave, ← hresult]
    exact hbytes

variable [CaseTables]

/-- The trace ends with `handled`, which came to `resp` for the request `buf` that was
read from the stream just before; since then clients were looked up at most. -/
structure Answering (trace : Trace) (streamId : UInt64) (buf : List UInt8)
    (resp : RlnGifterResponse) (earlier handled : Trace) : Prop where
  split : ∃ looked, trace = earlier ++ (handled ++ looked) ∧ ∀ event ∈ looked, Lookup event.1
  read : ∃ before outcome, earlier = before ++ [⟨readCall streamId, outcome⟩] ∧
    ReadGave outcome buf
  handles : (handleRequest buf).After handled (.ret resp)

theorem Answering.prepend {trace : Trace} {streamId : UInt64} {buf : List UInt8}
    {resp : RlnGifterResponse} {earlier handled : Trace}
    (h : Answering trace streamId buf resp earlier handled) (first : Trace) :
    Answering (first ++ trace) streamId buf resp (first ++ earlier) handled := by
  obtain ⟨⟨looked, rfl, hlooked⟩, ⟨before, outcome, rfl, hgave⟩, hhandled⟩ := h
  exact ⟨⟨looked, by simp, hlooked⟩, ⟨first ++ before, outcome, by simp, hgave⟩, hhandled⟩

/-- What the worker may be about to do: an operation on the bridge that writes nothing,
one of the request it handles, or the write of a response. -/
inductive WorkerAct (trace : Trace) (e : Op) : Prop where
  | bridging (he : Bridging e)
  | handling (earlier handled : Trace) (htrace : trace = earlier ++ handled)
      (buf : List UInt8) (q : Prog RlnGifterResponse)
      (hrun : (handleRequest buf).After handled q) (hpending : q.pending = some e)
  | writing (streamId : UInt64) (buf : List UInt8) (resp : RlnGifterResponse)
      (earlier handled : Trace) (he : e = writeCall streamId resp.encode)
      (h : Answering trace streamId buf resp earlier handled)

theorem WorkerAct.prepend {trace : Trace} {e : Op} (h : WorkerAct trace e)
    (first : Trace) : WorkerAct (first ++ trace) e := by
  cases h with
  | bridging he => exact .bridging he
  | handling earlier handled htrace buf q hrun hpending =>
      refine .handling (first ++ earlier) handled ?_ buf q hrun hpending
      rw [htrace, List.append_assoc]
  | writing streamId buf resp earlier handled he h =>
      exact .writing streamId buf resp _ handled he (h.prepend first)

theorem handleStream_act {streamId : UInt64} {trace : Trace} {e : Op}
    {next : Answer e → Prog (Except String Unit)}
    (h : (handleStream streamId).After trace (.op e next)) : WorkerAct trace e := by
  rw [handleStream] at h
  rcases bind_after h with ⟨e', next', hread, heq⟩ | ⟨reading, rest, read, rfl, hread, hrest⟩
  · cases heq
    exact .bridging (only_after (callLibp2p_bridging (by decide)) hread).2.1
  · cases read with
    | error e => cases (ret_after.mp hrest).2
    | ok read =>
        cases hbytes : requestBytes read with
        | error e =>
            simp only [hbytes] at hrest
            cases (ret_after.mp hrest).2
        | ok buf =>
            simp only [hbytes] at hrest
            rcases bind_after hrest with ⟨e', next', hhandle, heq⟩ |
              ⟨handled, rest', resp, rfl, hhandle, hrest'⟩
            · cases heq
              exact .handling reading rest rfl buf _ hhandle rfl
            · rcases bind_after hrest' with ⟨e', next', hwrite, heq⟩ |
                ⟨written, rest'', wrote, rfl, -, hrest''⟩
              · cases heq
                cases callLibp2p_worker_run hwrite with
                | running _ hfound _ _ he =>
                    rcases he with he | rfl
                    · exact .bridging he.bridging
                    · exact .writing streamId buf resp reading handled rfl
                        ⟨⟨_, rfl, hfound⟩, readStream_gave hread hbytes, hhandle⟩
              · rcases bind_after hrest'' with ⟨e', next', hrelease, heq⟩ |
                  ⟨released, last, done, rfl, -, hlast⟩
                · cases heq
                  exact .bridging (only_after (callLibp2p_bridging (by decide)) hrelease).2.1
                · cases (ret_after.mp hlast).2

theorem workerTurn_act {trace : Trace} {e : Op} {next : Answer e → Prog Unit}
    (h : workerTurn.After trace (.op e next)) : WorkerAct trace e := by
  rw [workerTurn] at h
  rcases bind_after h with ⟨e', next', haccept, heq⟩ |
    ⟨accepting, rest, accept, rfl, -, hrest⟩
  · cases heq
    exact .bridging (only_after (callLibp2p_bridging (by decide)) haccept).2.1
  · cases hstream : acceptedStream accept with
    | none =>
        simp only [hstream] at hrest
        cases (ret_after.mp hrest).2
    | some streamId =>
        simp only [hstream] at hrest
        rcases bind_after hrest with ⟨e', next', hhandle, heq⟩ |
          ⟨handling, last, r, rfl, -, hlast⟩
        · cases heq
          exact (handleStream_act hhandle).prepend accepting
        · cases (ret_after.mp hlast).2

/-- What the worker is about to do, in any turn of its loop. -/
theorem workerLoop_act {turns : Nat} {trace : Trace} {e : Op}
    {next : Answer e → Prog Unit} (h : (workerLoop turns).After trace (.op e next)) :
    WorkerAct trace e := by
  induction turns generalizing trace with
  | zero => cases (ret_after.mp h).2
  | succ turns ih =>
      rw [workerLoop] at h
      rcases bind_after h with ⟨e', next', hturn, heq⟩ | ⟨turn, rest, ⟨⟩, rfl, -, hrest⟩
      · cases heq
        exact workerTurn_act hturn
      · exact (ih hrest).prepend turn

end Streams

end RlnGifter
