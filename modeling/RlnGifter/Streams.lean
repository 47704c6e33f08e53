/-
The streams the worker holds.  Every turn of the loop accepts one stream at most
and calls for its release as soon as the request could be read; a stream that
could not be read is never released.
-/
import RlnGifter.Node

namespace RlnGifter

open Program

section Calls

theorem clientPtr_worker_found {target : String} {trace : Trace} {found : Bool}
    (h : (clientPtr .worker target).After trace (.ret found)) :
    (⟨.findClient target, found⟩ : Event Answer) ∈ trace := by
  simp only [clientPtr, perform_bind] at h
  obtain ⟨first, rest, rfl, hrest⟩ := op_after_ret h
  have hlook : ∀ {rest : Trace}, (perform (.findClient target)).After rest (.ret found) →
      (⟨.findClient target, found⟩ : Event Answer) ∈ rest := by
    intro rest hlook
    obtain ⟨answer, rfl, rfl⟩ := op_ret_after_ret hlook
    exact List.mem_cons_self
  cases first with
  | true => exact List.mem_cons_of_mem _ (hlook hrest)
  | false =>
      obtain ⟨owned, rest, owner, rfl, howner, hrest⟩ := bind_after_ret hrest
      obtain rfl := onOwnerThread_worker_after howner
      exact List.mem_cons_of_mem _ (List.mem_append_right _ (hlook hrest))

variable [SerdeJson]

/-- The result of an asynchronous call by the convention of universal modules. -/
def libp2pResult (method : String) (seen : Seen) : Except String Value :=
  (asyncResult method seen).bind (unwrapLibp2p method)

/-- The whole runs of a call to the bridge off the owner thread: there is no client
for it, or the call is made. -/
inductive BridgeCall (method : String) (args : Value) (timeoutMs : Int) :
    Trace → Except String Value → Prop where
  | unopened (found : Trace) (hfound : ∀ event ∈ found, Lookup event.1)
      (hlost : (⟨.findClient libp2pModule, false⟩ : Event Answer) ∈ found) (msg : String) :
      BridgeCall method args timeoutMs found (.error msg)
  | called (found : Trace) (hfound : ∀ event ∈ found, Lookup event.1)
      (hopened : (⟨.findClient libp2pModule, true⟩ : Event Answer) ∈ found)
      (outcome : Outcome) :
      BridgeCall method args timeoutMs
        (found ++ [⟨.invokeAsync libp2pModule method (SerdeJson.toText args) timeoutMs,
          outcome⟩])
        (libp2pResult method outcome.seen)

theorem callLibp2p_worker_after {method : String} {args : Value} {timeoutMs : Int}
    {trace : Trace} {r : Except String Value} (hmethod : hasNul method = false)
    (h : (callLibp2p .worker method args timeoutMs).After trace (.ret r)) :
    BridgeCall method args timeoutMs trace r := by
  rw [callLibp2p] at h
  obtain ⟨called, rest, v, rfl, hcall, hrest⟩ := bind_after_ret h
  obtain ⟨rfl, hr⟩ := ret_after.mp hrest
  cases hr
  rw [List.append_nil]
  rw [callJson] at hcall
  obtain ⟨found, rest, ptr, rfl, hptr, hrest⟩ := bind_after_ret hcall
  have hfound := (only_after (clientPtr_worker_only libp2pModule) hptr).1
  have hmem := clientPtr_worker_found hptr
  cases ptr with
  | false =>
      obtain ⟨rfl, hv⟩ := ret_after.mp hrest
      cases hv
      rw [List.append_nil]
      exact .unopened found hfound hmem _
  | true =>
      simp only [hmethod, hasNul_toText, Bool.or_self, Bool.false_eq_true, ↓reduceIte]
        at hrest
      obtain ⟨owned, rest', owner, rfl, howner, hrest'⟩ := bind_after_ret hrest
      have howned := (only_after onOwnerThread_worker_only howner).1
      obtain rfl := onOwnerThread_worker_after howner
      simp only [Bool.false_eq_true, ↓reduceIte, perform_bind, pure_eq_ret] at hrest'
      obtain ⟨outcome, rfl, rfl⟩ := op_ret_after_ret hrest'
      rw [← List.append_assoc]
      refine .called (found ++ owned) ?_ (List.mem_append_left _ hmem) outcome
      simpa [or_imp, forall_and] using ⟨hfound, howned⟩

end Calls

section Streams

/-- An operation that is no accept, read or release of a stream. -/
def OffStream : Op → Prop
  | .invokeAsync target method _ _ =>
      target = libp2pModule → method ≠ "protocolAcceptStream" ∧
        method ≠ "streamReadLpJson" ∧ method ≠ "streamReleaseJson"
  | _ => True

theorem Lookup.offStream {e : Op} (h : Lookup e) : OffStream e := by
  cases e <;> trivial

variable [SerdeJson]

/-- The argument of the call that releases a stream. -/
def releaseText (streamId : UInt64) : String :=
  SerdeJson.toText (blob (.object [("streamId", .u64 streamId)]))

/-- The streams that are accepted and not released after one more event.  A release
of a stream that is not held is a fault. -/
def holdStream (held : List UInt64) : Event Answer → Option (List UInt64)
  | ⟨.invokeAsync target method args _, outcome⟩ =>
      if target ≠ libp2pModule then some held
      else if method = "protocolAcceptStream" then
        some ((acceptedStream (libp2pResult method outcome.seen)).toList ++ held)
      else if method = "streamReleaseJson" then
        (held.find? fun streamId => args = releaseText streamId).map held.erase
      else some held
  | _ => some held

/-- The streams held after a trace, from those held before it. -/
def heldStreams (held : List UInt64) (trace : Trace) : Option (List UInt64) :=
  trace.foldlM holdStream held

theorem heldStreams_append {held : List UInt64} {first second : Trace} :
    heldStreams held (first ++ second) =
      (heldStreams held first).bind fun held' => heldStreams held' second :=
  List.foldlM_append

theorem holdStream_offStream {event : Event Answer} (h : OffStream event.1)
    (held : List UInt64) : holdStream held event = some held := by
  obtain ⟨e, answer⟩ := event
  cases e with
  | invokeAsync target method args timeoutMs =>
      by_cases htarget : target = libp2pModule
      · obtain ⟨haccept, -, hrelease⟩ := h htarget
        simp [holdStream, haccept, hrelease]
      · simp [holdStream, htarget]
  | _ => rfl

theorem heldStreams_offStream {trace : Trace} (h : ∀ event ∈ trace, OffStream event.1)
    (held : List UInt64) : heldStreams held trace = some held := by
  induction trace with
  | nil => rfl
  | cons event trace ih =>
      rw [heldStreams, List.foldlM_cons, holdStream_offStream (h event List.mem_cons_self)]
      exact ih fun event' hevent => h event' (List.mem_cons_of_mem event hevent)

variable [Base64]

/-- The event is no call of `streamReadLpJson`, or one that gave the bytes of a
request. -/
def ReadsRequest : Event Answer → Prop
  | ⟨.invokeAsync target method _ _, outcome⟩ =>
      target = libp2pModule → method = "streamReadLpJson" →
        ∃ bytes, (libp2pResult method outcome.seen).bind requestBytes = .ok bytes
  | _ => True

theorem ReadsRequest.of_offStream {event : Event Answer} (h : OffStream event.1) :
    ReadsRequest event := by
  obtain ⟨e, answer⟩ := event
  cases e with
  | invokeAsync target method args timeoutMs =>
      intro htarget hmethod
      exact absurd hmethod (h htarget).2.1
  | _ => trivial

end Streams

section Requests

theorem settle_offStream {cfg : ServerCfg} {req : RlnGifterRequest} {key : Option String}
    {r : Except RegisterError MembershipAllocationSuccess} :
    (settle cfg req key r).Only OffStream := by
  rw [settle_eq]
  cases hop : settleOp cfg key r with
  | none => trivial
  | some e =>
      obtain ⟨k, -, ⟨rfl, -⟩ | ⟨rfl, -⟩⟩ := settleOp_cases hop
      · exact ⟨trivial, fun _ => trivial⟩
      · exact ⟨trivial, fun _ => trivial⟩

variable [SerdeJson]

theorem register_offStream {cfg : ServerCfg} {idc : List UInt8} {rate : UInt64} :
    (register cfg idc rate).Only OffStream := by
  refine only_mono ?_ register_only
  rintro e ((he | rfl | rfl) | rfl)
  · exact he.offStream
  · intro htarget
    exact absurd htarget (by decide)
  · trivial
  · intro htarget
    exact absurd htarget (by decide)

variable [CaseTables]

theorem authenticate_offStream {cfg : ServerCfg} {req : RlnGifterRequest} {authType : String}
    {rate : UInt64} : (authenticate cfg req authType rate).Only OffStream := by
  apply only_of_after
  intro trace e next h
  cases authenticate_after h with
  | asking _ _ _ _ he =>
      rcases he with he | ⟨verifier, verifierConfig, verifyJson, -, -, rfl⟩
      · exact he.offStream
      · intro _
        decide
  | reserving => trivial

/-- Handling a request accepts, reads and releases no stream. -/
theorem handleRequest_offStream (buf : List UInt8) : (handleRequest buf).Only OffStream := by
  rw [handleRequest]
  split
  · trivial
  · split
    · trivial
    · refine ⟨trivial, fun server => ?_⟩
      cases server with
      | none => trivial
      | some cfg =>
          apply only_bind authenticate_offStream
          rintro (response | key)
          · trivial
          · exact only_bind register_offStream fun _ => settle_offStream

end Requests

section Loop

variable [SerdeJson]

/-- A client for the bridge was looked for and not found. -/
abbrev bridgeLost : Event Answer := ⟨.findClient libp2pModule, false⟩

/-- A call of a method that is not about accepting, reading or releasing. -/
theorem BridgeCall.offStream {method : String} {args : Value} {timeoutMs : Int}
    {trace : Trace} {r : Except String Value} (h : BridgeCall method args timeoutMs trace r)
    (hmethod : method ≠ "protocolAcceptStream" ∧ method ≠ "streamReadLpJson" ∧
      method ≠ "streamReleaseJson") : ∀ event ∈ trace, OffStream event.1 := by
  intro event hevent
  cases h with
  | unopened _ hfound => exact (hfound event hevent).offStream
  | called found hfound _ outcome =>
      rcases List.mem_append.mp hevent with hevent | hevent
      · exact (hfound event hevent).offStream
      · rw [List.mem_singleton.mp hevent]
        exact fun _ => hmethod

/-- A call that finds its client is one event after the lookups. -/
theorem BridgeCall.held {method : String} {args : Value} {timeoutMs : Int} {trace : Trace}
    {r : Except String Value} (h : BridgeCall method args timeoutMs trace r)
    (hlost : bridgeLost ∉ trace) :
    ∃ found outcome, (∀ event ∈ found, OffStream event.1) ∧
      trace = found ++ [⟨.invokeAsync libp2pModule method (SerdeJson.toText args) timeoutMs,
        outcome⟩] ∧
      r = libp2pResult method outcome.seen ∧
      ∀ held, heldStreams held trace = holdStream held
        ⟨.invokeAsync libp2pModule method (SerdeJson.toText args) timeoutMs, outcome⟩ := by
  cases h with
  | unopened _ _ hmem => exact absurd hmem hlost
  | called found hfound _ outcome =>
      have hoff : ∀ event ∈ found, OffStream event.1 :=
        fun event hevent => (hfound event hevent).offStream
      refine ⟨found, outcome, hoff, rfl, rfl, fun held => ?_⟩
      rw [heldStreams_append, heldStreams_offStream hoff]
      exact bind_pure _

theorem holdStream_release (streamId : UInt64) (held : List UInt64) (timeoutMs : Int)
    (outcome : Outcome) :
    holdStream (streamId :: held) ⟨.invokeAsync libp2pModule "streamReleaseJson"
      (releaseText streamId) timeoutMs, outcome⟩ = some held := by
  simp [holdStream, List.find?]

variable [Base64]

/-- A call of another method reads nothing. -/
theorem BridgeCall.reads {method : String} {args : Value} {timeoutMs : Int}
    {trace : Trace} {r : Except String Value} (h : BridgeCall method args timeoutMs trace r)
    (hmethod : method ≠ "streamReadLpJson") : ∀ event ∈ trace, ReadsRequest event := by
  intro event hevent
  cases h with
  | unopened _ hfound => exact .of_offStream (hfound event hevent).offStream
  | called found hfound _ outcome =>
      rcases List.mem_append.mp hevent with hevent | hevent
      · exact .of_offStream (hfound event hevent).offStream
      · rw [List.mem_singleton.mp hevent]
        exact fun _ heq => absurd heq hmethod

/-- Reading changes nothing about the streams held, and every read of the trace
gives a request exactly when this one does. -/
theorem readStream_held {streamId : UInt64} {trace : Trace} {read : Except String Value}
    (h : (readStream streamId).After trace (.ret read)) (hlost : bridgeLost ∉ trace) :
    (∀ held, heldStreams held trace = some held) ∧
      ((∀ event ∈ trace, ReadsRequest event) ↔ ∃ bytes, read.bind requestBytes = .ok bytes) := by
  obtain ⟨found, outcome, hfound, rfl, rfl, hheld⟩ :=
    (callLibp2p_worker_after (by decide) h).held hlost
  refine ⟨fun held => ?_, ?_, ?_⟩
  · rw [hheld]
    simp [holdStream]
  · intro hall
    exact hall _ (List.mem_append_right _ List.mem_cons_self) rfl rfl
  · intro hbytes event hevent
    rcases List.mem_append.mp hevent with hevent | hevent
    · exact .of_offStream (hfound event hevent)
    · rw [List.mem_singleton.mp hevent]
      exact fun _ _ => hbytes

variable [CaseTables]

/-- The rest of `handle_stream` once the request was read releases the stream. -/
theorem answerStream_held {streamId : UInt64} {reqBytes : List UInt8} {trace : Trace}
    {r : Except String Unit}
    (h : Program.After (do
      let resp ← handleRequest reqBytes
      let _ ← writeStream streamId resp
      let _ ← releaseStream streamId
      return .ok () : Prog (Except String Unit)) trace (.ret r))
    (hlost : bridgeLost ∉ trace) :
    (∀ event ∈ trace, ReadsRequest event) ∧
      ∀ held, heldStreams (streamId :: held) trace = some held := by
  obtain ⟨handled, rest, resp, rfl, hhandled, hrest⟩ := bind_after_ret h
  obtain ⟨written, rest, wrote, rfl, hwritten, hrest⟩ := bind_after_ret hrest
  obtain ⟨released, rest, done, rfl, hreleased, hrest⟩ := bind_after_ret hrest
  obtain ⟨rfl, -⟩ := ret_after.mp hrest
  simp only [List.append_nil, List.mem_append, not_or] at hlost ⊢
  have hhandled := (only_after (handleRequest_offStream reqBytes) hhandled).1
  have hwritten := callLibp2p_worker_after (by decide) hwritten
  have hreleased := callLibp2p_worker_after (by decide) hreleased
  obtain ⟨-, outcome, -, -, -, hheld⟩ := hreleased.held hlost.2.2
  constructor
  · rintro event (hevent | hevent | hevent)
    · exact .of_offStream (hhandled event hevent)
    · exact hwritten.reads (by decide) event hevent
    · exact hreleased.reads (by decide) event hevent
  · intro held
    rw [heldStreams_append, heldStreams_offStream hhandled, Option.bind_some,
      heldStreams_append, heldStreams_offStream (hwritten.offStream (by decide)),
      Option.bind_some, hheld]
    exact holdStream_release streamId held _ outcome

/-- A stream that was read is released; one that was not is still held. -/
theorem handleStream_held {streamId : UInt64} {trace : Trace} {r : Except String Unit}
    (h : (handleStream streamId).After trace (.ret r)) (hlost : bridgeLost ∉ trace) :
    ((∀ event ∈ trace, ReadsRequest event) ∧
        ∀ held, heldStreams (streamId :: held) trace = some held) ∨
      ((¬ ∀ event ∈ trace, ReadsRequest event) ∧
        ∀ held, heldStreams held trace = some held) := by
  rw [handleStream] at h
  obtain ⟨reading, rest, read, rfl, hread, hrest⟩ := bind_after_ret h
  simp only [List.mem_append, not_or] at hlost
  obtain ⟨hheld, hreads⟩ := readStream_held hread hlost.1
  cases hbytes : read.bind requestBytes with
  | error e =>
      -- the early exits: whichever step failed, nothing is called after it
      have hdone : rest = [] := by
        cases read with
        | error e => exact (ret_after.mp hrest).1
        | ok read =>
            change requestBytes read = .error e at hbytes
            simp only [hbytes] at hrest
            exact (ret_after.mp hrest).1
      subst hdone
      rw [List.append_nil]
      refine Or.inr ⟨fun hall => ?_, hheld⟩
      obtain ⟨bytes, hok⟩ := hreads.mp hall
      rw [hbytes] at hok
      cases hok
  | ok reqBytes =>
      cases read with
      | error e => cases hbytes
      | ok read =>
          change requestBytes read = .ok reqBytes at hbytes
          simp only [hbytes] at hrest
          obtain ⟨hall, hreleased⟩ := answerStream_held hrest hlost.2
          refine Or.inl ⟨?_, fun held => ?_⟩
          · intro event hevent
            rcases List.mem_append.mp hevent with hevent | hevent
            · exact hreads.mpr ⟨reqBytes, hbytes⟩ event hevent
            · exact hall event hevent
          · rw [heldStreams_append, hheld, Option.bind_some, hreleased]

/-- One turn of the loop leaves the streams held as they were, or holds one more. -/
theorem workerTurn_held {trace : Trace} (h : workerTurn.After trace (.ret ()))
    (hsteady : Steady trace) :
    ((∀ event ∈ trace, ReadsRequest event) ∧ ∀ held, heldStreams held trace = some held) ∨
      ((¬ ∀ event ∈ trace, ReadsRequest event) ∧
        ∃ streamId, ∀ held, heldStreams held trace = some (streamId :: held)) := by
  rw [workerTurn] at h
  obtain ⟨accepting, rest, accept, rfl, haccept, hrest⟩ := bind_after_ret h
  have hcall := callLibp2p_worker_after (by decide) haccept
  have hreads := hcall.reads (by decide)
  have hheld : ∀ held, heldStreams held accepting =
      some ((acceptedStream accept).toList ++ held) := by
    intro held
    cases hcall with
    | unopened _ hfound _ msg =>
        exact heldStreams_offStream (fun event hevent => (hfound event hevent).offStream) held
    | called found hfound _ outcome =>
        rw [heldStreams_append, heldStreams_offStream
          fun event hevent => (hfound event hevent).offStream]
        simp [heldStreams, holdStream]
  cases hstream : acceptedStream accept with
  | none =>
      simp only [hstream] at hrest
      obtain ⟨rfl, -⟩ := ret_after.mp hrest
      rw [List.append_nil]
      refine Or.inl ⟨hreads, fun held => ?_⟩
      rw [hheld, hstream]
      rfl
  | some streamId =>
      simp only [hstream] at hrest
      have hlost : bridgeLost ∉ rest := by
        cases hcall with
        | unopened _ _ _ msg => cases hstream
        | called found _ hopened outcome =>
            exact hsteady.not_mem_of_mem (List.mem_append_left _ hopened)
      obtain ⟨handling, last, r, rfl, hhandle, hlast⟩ := bind_after_ret hrest
      obtain ⟨rfl, -⟩ := ret_after.mp hlast
      rw [List.append_nil] at hlost ⊢
      rcases handleStream_held hhandle hlost with ⟨hall, hreleased⟩ | ⟨hbad, hkept⟩
      · refine Or.inl ⟨?_, fun held => ?_⟩
        · intro event hevent
          rcases List.mem_append.mp hevent with hevent | hevent
          · exact hreads event hevent
          · exact hall event hevent
        · rw [heldStreams_append, hheld, hstream]
          exact hreleased held
      · refine Or.inr ⟨?_, streamId, fun held => ?_⟩
        · intro hall
          exact hbad fun event hevent => hall event (List.mem_append_right _ hevent)
        · rw [heldStreams_append, hheld, hstream]
          exact hkept (streamId :: held)

/-- Over whole turns the worker holds a stream for every one that was not read. -/
theorem workerLoop_held {turns : Nat} {trace : Trace}
    (h : (workerLoop turns).After trace (.ret ())) (hsteady : Steady trace) :
    ∃ unread, (∀ held, heldStreams held trace = some (unread ++ held)) ∧
      (unread = [] ↔ ∀ event ∈ trace, ReadsRequest event) := by
  induction turns generalizing trace with
  | zero =>
      obtain ⟨rfl, -⟩ := ret_after.mp h
      exact ⟨[], fun held => rfl, by simp⟩
  | succ turns ih =>
      rw [workerLoop] at h
      rcases bind_after h with ⟨e, next, -, heq⟩ | ⟨turn, rest, ⟨⟩, rfl, hturn, hrest⟩
      · cases heq
      · obtain ⟨unread, hrestHeld, hunread⟩ := ih hrest hsteady.of_append.2
        have hall : (∀ event ∈ turn ++ rest, ReadsRequest event) ↔
            (∀ event ∈ turn, ReadsRequest event) ∧ ∀ event ∈ rest, ReadsRequest event := by
          simp only [List.mem_append, or_imp, forall_and]
        rcases workerTurn_held hturn hsteady.of_append.1 with ⟨hreads, hheld⟩ |
          ⟨hbad, streamId, hheld⟩
        · refine ⟨unread, fun held => ?_, ?_⟩
          · rw [heldStreams_append, hheld, Option.bind_some, hrestHeld]
          · rw [hall, hunread]
            exact ⟨fun hrest => ⟨hreads, hrest⟩, And.right⟩
        · refine ⟨unread ++ [streamId], fun held => ?_, ?_⟩
          · rw [heldStreams_append, hheld, Option.bind_some, hrestHeld]
            simp
          · rw [hall]
            simp [hbad]

/-- What the worker has done when it stands at the head of its loop. -/
def LoopHead (w : WorkerThread) (head : Trace) : Prop :=
  head <+: w.trace ∧ ∃ turns, (workerLoop turns).After head (.ret ())

/-- In every run of the process no stream is held at a head of the worker's loop,
and every one was released once, exactly when every stream accepted so far could be
read. -/
theorem released_iff_read {files : String → Option String} {N : Node} {w : WorkerThread}
    {head : Trace} (hrun : NodeRun (fun _ => True) (.new files) N)
    (hworker : N.worker = some w) (hhead : LoopHead w head) :
    heldStreams [] head = some [] ↔ ∀ event ∈ head, ReadsRequest event := by
  obtain ⟨⟨rest, hprefix⟩, turns, hafter⟩ := hhead
  have hsteady := (workerAt_run hrun hworker).steady
  rw [← hprefix] at hsteady
  obtain ⟨unread, hheld, hunread⟩ := workerLoop_held hafter hsteady.of_append.1
  rw [hheld, ← hunread]
  simp

end Loop

section Bridge

variable [SerdeJson]

/-- The bridge's answer with a value that is no envelope. -/
def bridgeReply (v : Value) : Outcome :=
  ⟨.reply true (some (SerdeJson.toText v)), false⟩

theorem libp2pResult_bridgeReply {v : Value} {fields : List (String × Value)}
    (hplain : v.tree.plain 127 = true) (hview : v.view = .object fields)
    (hbare : v.get "success" = none) (method : String) :
    libp2pResult method (bridgeReply v).seen = .ok v := by
  have hparse : parseOk (SerdeJson.toText v) = v := by
    rw [parseOk, if_neg (SerdeJson.toText_ne_empty _), (SerdeJson.toText_reads v).1 hplain]
  change unwrapLibp2p method (parseOk (SerdeJson.toText v)) = .ok v
  rw [hparse]
  simp only [unwrapLibp2p, hview]
  change openEnvelope method v = .ok v
  rw [openEnvelope, hbare]

/-- The stream the bridge hands out. -/
def streamFive : Value :=
  .object [("streamId", .u64 5)]

theorem acceptedStream_five : acceptedStream
    (libp2pResult "protocolAcceptStream" (bridgeReply streamFive).seen) = some 5 := by
  rw [libp2pResult_bridgeReply rfl rfl rfl]
  simp [acceptedStream, streamFive, Value.object, Value.get_insert]

/-- The accept in which the bridge hands out the stream. -/
def acceptTrace (s : Shared) : Trace :=
  callTrace s libp2pModule "protocolAcceptStream" (SerdeJson.toText (blob
    (.object [("proto", .string rlnGifterCodec), ("timeoutMs", .u64 acceptTimeoutMs)])))
    acceptTimeoutMs.toNat (bridgeReply streamFive)

theorem heldStreams_acceptTrace (s : Shared) (held : List UInt64) :
    heldStreams held (acceptTrace s) = some (5 :: held) := by
  simp [heldStreams, acceptTrace, callTrace, holdStream, acceptedStream_five]

variable [CaseTables]

theorem callLibp2p_does {s : Shared} {method : String} (args : Value) (timeoutMs : Int)
    (outcome : Outcome) (h : libp2pModule ∈ s.clients) (hmethod : hasNul method = false) :
    Does execOp (callLibp2p .worker method args timeoutMs) s (callEnvs outcome)
      (callTrace s libp2pModule method (SerdeJson.toText args) timeoutMs outcome)
      (.ret (libp2pResult method outcome.seen)) s := by
  have hall := (callJson_does args timeoutMs outcome h hmethod).bind
    (f := fun v => pure (v.bind (unwrapLibp2p method))) (.done _ _)
  rw [List.append_nil, List.append_nil] at hall
  exact hall

/-- The read of the stream, answered with this. -/
def readTrace (s : Shared) (outcome : Outcome) : Trace :=
  callTrace s libp2pModule "streamReadLpJson" (SerdeJson.toText (blob
    (.object [("streamId", .u64 5), ("maxSize", .u64 maxRpcSize),
      ("timeoutMs", .u64 readTimeoutMs)]))) (readTimeoutMs.toNat + 10000) outcome

theorem readStream_does {s : Shared} (h : libp2pModule ∈ s.clients) (outcome : Outcome) :
    Does execOp (readStream 5) s (callEnvs outcome) (readTrace s outcome)
      (.ret (libp2pResult "streamReadLpJson" outcome.seen)) s :=
  callLibp2p_does _ _ outcome h (by decide)

variable [Base64]

omit [CaseTables] in
theorem acceptTrace_reads (s : Shared) : ∀ event ∈ acceptTrace s, ReadsRequest event := by
  simp [acceptTrace, callTrace, ReadsRequest]

/-- A turn in which the bridge hands out the stream. -/
theorem workerLoop_does {s s' : Shared} (h : libp2pModule ∈ s.clients) {envs : List Env}
    {trace : Trace} {r : Except String Unit}
    (hhandle : Does execOp (handleStream 5) s envs trace (.ret r) s') :
    ∃ envs', Does execOp (workerLoop 1) s envs' (acceptTrace s ++ trace) (.ret ()) s' := by
  have haccept : Does execOp acceptStream s _ (acceptTrace s) _ s :=
    callLibp2p_does _ _ (bridgeReply streamFive) h (by decide)
  have hturn : Does execOp workerTurn s (callEnvs (bridgeReply streamFive) ++ (envs ++ []))
      (acceptTrace s ++ (trace ++ [])) (.ret ()) s' := by
    rw [workerTurn]
    apply haccept.bind
    simp only [acceptedStream_five]
    exact hhandle.bind (.done _ _)
  have hloop : Does execOp (workerLoop 1) s _ _ (.ret ()) s' := hturn.bind (.done _ _)
  simp only [List.append_nil] at hloop
  exact ⟨_, hloop⟩

/-- A process in which the worker of an open gifter has made that turn. -/
theorem nodeRun_turn {files : String → Option String} {envs : List Env} {trace : Trace}
    {r : Except String Unit} {s : Shared}
    (hhandle : Does execOp (handleStream 5) (openShared files) envs trace (.ret r) s) :
    ∃ N w, NodeRun (fun _ => True) (.new files) N ∧ N.worker = some w ∧
      LoopHead w (acceptTrace (openShared files) ++ trace) := by
  have hlibp2p : libp2pModule ∈ (openShared files).clients := by
    simp [openShared, Shared.ready, Shared.merge, Shared.mounted]
  obtain ⟨envs', hturn⟩ := workerLoop_does hlibp2p hhandle
  have hspawn : NodeStep ⟨openShared files, none, true, none⟩
      ⟨openShared files, none, true, some ⟨1, [], workerLoop 1⟩⟩ :=
    .spawned rfl Nat.one_pos 1
  have hopen := nodeRun_open files (fun _ _ => trivial) (fun _ => trivial) fun _ => trivial
  have hrun := (Relation.ReflTransGen.tail hopen ⟨trivial, hspawn⟩).trans
    (NodeRun.works rfl hturn)
  exact ⟨_, _, hrun, rfl, List.prefix_rfl, 1, hturn.after⟩

/-- A stream that is read, and whose request is answered at once. -/
theorem handleStream_does {s : Shared} (h : libp2pModule ∈ s.clients) {outcome : Outcome}
    {read : Value} {reqBytes : List UInt8} {resp : RlnGifterResponse}
    (hread : libp2pResult "streamReadLpJson" outcome.seen = .ok read)
    (hbytes : requestBytes read = .ok reqBytes) (hresp : handleRequest reqBytes = .ret resp) :
    ∃ envs trace, Does execOp (handleStream 5) s envs trace (.ret (.ok ())) s ∧
      ∀ event ∈ trace, ReadsRequest event := by
  have hreading := readStream_does h outcome
  rw [hread] at hreading
  obtain ⟨written, r, hwrite⟩ : ∃ written r, Does execOp (writeStream 5 resp) s
      (callEnvs ⟨.timedOut, false⟩) written (.ret r) s :=
    ⟨_, _, callLibp2p_does _ _ _ h (by decide)⟩
  obtain ⟨released, r', hrelease⟩ : ∃ released r', Does execOp (releaseStream 5) s
      (callEnvs ⟨.timedOut, false⟩) released (.ret r') s :=
    ⟨_, _, callLibp2p_does _ _ _ h (by decide)⟩
  have hhandle : Does execOp (handleStream 5) s
      (callEnvs outcome ++ (callEnvs ⟨.timedOut, false⟩ ++ (callEnvs ⟨.timedOut, false⟩ ++ [])))
      (readTrace s outcome ++ (written ++ (released ++ []))) (.ret (.ok ())) s := by
    rw [handleStream]
    apply hreading.bind
    simp only [hbytes, hresp]
    exact hwrite.bind (hrelease.bind (.done _ _))
  refine ⟨_, _, hhandle, ?_⟩
  have hreads : ∀ event ∈ readTrace s outcome, ReadsRequest event := by
    simp [readTrace, callTrace, ReadsRequest, hread, Except.bind, hbytes]
  have hwrites := (callLibp2p_worker_after (by decide) hwrite.after).reads (by decide)
  have hreleases := (callLibp2p_worker_after (by decide) hrelease.after).reads (by decide)
  simp only [List.append_nil, List.mem_append]
  rintro event (hevent | hevent | hevent)
  · exact hreads event hevent
  · exact hwrites event hevent
  · exact hreleases event hevent

end Bridge

open Platform in
/-- The peer opens a stream and sends nothing: the read runs into its timeout, and
the worker comes back to the head of its loop with the stream unreleased. -/
theorem silent_stream_unreleased : ∃ N w head,
    NodeRun (fun _ => True) (.new fun _ => none) N ∧ N.worker = some w ∧ LoopHead w head ∧
      heldStreams [] head = some [5] := by
  have hread := readStream_does (s := openShared fun _ => none)
    (by simp [openShared, Shared.ready, Shared.merge, Shared.mounted]) ⟨.timedOut, false⟩
  have hhandle : Does execOp (handleStream 5) (openShared fun _ => none) _ _
      (.ret (.error "streamReadLpJson: reply channel timed out")) _ :=
    hread.bind (.done _ _)
  obtain ⟨N, w, hrun, hworker, hhead⟩ := nodeRun_turn hhandle
  refine ⟨N, w, _, hrun, hworker, hhead, ?_⟩
  rw [heldStreams_append, heldStreams_acceptTrace]
  simp [heldStreams, readTrace, callTrace, holdStream]

open Platform in
/-- The peer sends an empty request: it is refused, and the stream released. -/
theorem released_iff_read_empty : ∃ N w head,
    NodeRun (fun _ => True) (.new fun _ => none) N ∧ N.worker = some w ∧ LoopHead w head ∧
      acceptTrace (openShared fun _ => none) <+: head ∧ heldStreams [] head = some [] := by
  have hlibp2p : libp2pModule ∈ (openShared fun _ => none).clients := by
    simp [openShared, Shared.ready, Shared.merge, Shared.mounted]
  have hbytes : requestBytes (.object [("dataB64", .string (b64 []))]) = .ok [] := by
    have hget : (Value.object [("dataB64", .string (b64 []))]).get "dataB64" =
        some (.string (b64 [])) := by
      simp [Value.object, Value.get_insert]
    simp [requestBytes, hget]
  have hrefused : handleRequest [] =
      .ret (failureResponse "N/A" false "decode error: missing request_id") := by
    simp [handleRequest, RlnGifterRequest.decode, walkFields]
  obtain ⟨envs, trace, hhandle, hreads⟩ := handleStream_does hlibp2p
    (libp2pResult_bridgeReply (v := .object [("dataB64", .string (b64 []))]) rfl rfl rfl _)
    hbytes hrefused
  obtain ⟨N, w, hrun, hworker, hhead⟩ := nodeRun_turn hhandle
  refine ⟨N, w, _, hrun, hworker, hhead, List.prefix_append _ _,
    (released_iff_read hrun hworker hhead).mpr ?_⟩
  intro event hevent
  rcases List.mem_append.mp hevent with hevent | hevent
  · exact acceptTrace_reads _ event hevent
  · exact hreads event hevent

end RlnGifter
