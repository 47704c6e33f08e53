/-
The network around a gifter: clients that have prepared their requests, the streams of
the bridge, and the gifter's process, which may crash and be started again.  A peer may
send anything on a stream; the bridge gives each stream an id of its own, may lose what is
written, and may carry a client's request more than once.
-/
import RlnGifter.Agreement
import RlnGifter.OneWorker

namespace RlnGifter

open Program

/-- What a peer sent on a stream, the client whose request it is if it is one's, and what
the gifter has written on it. -/
structure Stream where
  sent : List UInt8
  client : Option Nat
  written : List (List UInt8)

/-- The trace of the worker, empty until there is one. -/
def Node.workerTrace (N : Node) : Trace :=
  (N.worker.map WorkerThread.trace).getD []

/-- The gifter with the traces of the workers it had before its crashes, what each client
asks for and has been told, and the streams. -/
structure Network where
  node : Node
  past : List Trace := []
  clients : Nat → Option Prepared := fun _ => none
  streams : UInt64 → Option Stream := fun _ => none
  told : Nat → Option (Except String Value) := fun _ => none

/-- A network in which nothing has happened, with these files at the gifter. -/
def Network.start (files : String → Option String) : Network where
  node := .new files

/-- The traces of all workers there have been, one for each process. -/
def Network.workers (net : Network) : List Trace :=
  net.past ++ [net.node.workerTrace]

section Steps

variable [SerdeJson] [Base64]

/-- A request that is read from a stream is the one that was sent on it. -/
def Delivers (streams : UInt64 → Option Stream) (event : Event Answer) : Prop :=
  ∀ streamId outcome bytes, event = ⟨readCall streamId, outcome⟩ → ReadGave outcome bytes →
    ∃ stream, streams streamId = some stream ∧ stream.sent = bytes

variable [CaseTables]

/-- The steps of the network. -/
inductive NetStep : Network → Network → Prop where
  /-- a client prepares its request -/
  | prepares {net : Network} (i : Nat) (hnew : net.clients i = none) {who : Caller}
      {argsJson : String} {prepared : Trace} {p : Prepared}
      (hprepared : (prepareRequest who argsJson).After prepared (.ret (.ok p)))
      (hfits : p.req.encode.length < 2 ^ 64) :
      NetStep net { net with clients := Function.update net.clients i (some p) }
  /-- a client, or any other peer, opens a stream -/
  | opens {net : Network} (streamId : UInt64) (hfree : net.streams streamId = none)
      (sent : List UInt8) (client : Option Nat)
      (hclient : ∀ i, client = some i →
        ∃ p, net.clients i = some p ∧ sent = p.req.encode) :
      NetStep net { net with
        streams := Function.update net.streams streamId (some ⟨sent, client, []⟩) }
  /-- the gifter's process takes a step; what it writes is lost -/
  | acts {net : Network} {N : Node} (hstep : NodeStep net.node N)
      (hdelivers : ∀ event, N.workerTrace = net.node.workerTrace ++ [event] →
        Delivers net.streams event) :
      NetStep net { net with node := N }
  /-- the worker writes on a stream -/
  | writes {net : Network} {N : Node} (hstep : NodeStep net.node N) {streamId : UInt64}
      {bytes : List UInt8} {outcome : Outcome}
      (htrace : N.workerTrace = net.node.workerTrace ++ [⟨writeCall streamId bytes, outcome⟩])
      {stream : Stream} (hstream : net.streams streamId = some stream) :
      NetStep net { net with
        node := N
        streams := Function.update net.streams streamId
          (some { stream with written := stream.written ++ [bytes] }) }
  /-- the gifter's process stops, and a new one finds its files -/
  | crashes {net : Network} :
      NetStep net { net with node := .new net.node.shared.files, past := net.workers }
  /-- the bridge hands a client what was written on its stream -/
  | answers {net : Network} {i : Nat} (hwaits : net.told i = none) {p : Prepared}
      (hclient : net.clients i = some p) {streamId : UInt64} {stream : Stream}
      (hstream : net.streams streamId = some stream) (hown : stream.client = some i)
      {bytes : List UInt8} (hwritten : bytes ∈ stream.written)
      (hfits : bytes.length < 2 ^ 64) {reply : Value}
      (hreply : (reply.get "responseB64").bind Value.asStr = some (b64 bytes)) :
      NetStep net { net with told := Function.update net.told i (some (readReply p reply)) }
  /-- the bridge fails a client -/
  | fails {net : Network} {i : Nat} (hwaits : net.told i = none) (e : String) :
      NetStep net { net with told := Function.update net.told i (some (.error e)) }

/-- The runs of the network. -/
abbrev NetRun : Network → Network → Prop :=
  Relation.ReflTransGen NetStep

/-- The steps of a process whose host calls `serve` with an argument in `texts`, and whose
operations go as in `goes`. -/
inductive NodeStepIn (texts : String → Prop) (goes : Env → Shared → Op → Prop) :
    Node → Node → Prop where
  | begins {N : Node} (hcall : N.call = none) (call : HostCall)
      (htexts : ∀ argsJson, call = .serve argsJson → texts argsJson) :
      NodeStepIn texts goes N { N with call := some (hostBody call) }
  | calling {N : Node} {e : Op} {next : Answer e → Prog HostResult}
      (hcall : N.call = some (.op e next)) (env : Env) (hgoes : goes env N.shared e) :
      NodeStepIn texts goes N { N with
        shared := (execOp env N.shared e).2
        call := some (next (execOp env N.shared e).1) }
  | returns {N : Node} {result : HostResult} (hcall : N.call = some (.ret result)) :
      NodeStepIn texts goes N { N with
        call := none, served := N.served || result.serves }
  | spawned {N : Node} (hworker : N.worker = none) (hspawned : 0 < N.shared.workers)
      (turns : Nat) :
      NodeStepIn texts goes N { N with worker := some ⟨turns, [], workerLoop turns⟩ }
  | working {N : Node} {turns : Nat} {trace : Trace} {e : Op}
      {next : Answer e → Prog Unit} (hworker : N.worker = some ⟨turns, trace, .op e next⟩)
      (env : Env) (hgoes : goes env N.shared e) :
      NodeStepIn texts goes N { N with
        shared := (execOp env N.shared e).2
        worker := some ⟨turns, trace ++ [⟨e, (execOp env N.shared e).1⟩],
          next (execOp env N.shared e).1⟩ }

theorem nodeStepIn_true {N N' : Node} (h : NodeStep N N') :
    NodeStepIn (fun _ => True) (fun _ _ _ => True) N N' := by
  cases h with
  | begins hcall call => exact .begins hcall call fun _ _ => trivial
  | calling hcall env => exact .calling hcall env trivial
  | returns hcall => exact .returns hcall
  | spawned hworker hspawned turns => exact .spawned hworker hspawned turns
  | working hworker env => exact .working hworker env trivial

/-- The steps of the network in which the process takes such a step, if it takes one. -/
inductive NetStepIn (texts : String → Prop) (goes : Env → Shared → Op → Prop) :
    Network → Network → Prop where
  | around {net net' : Network} (h : NetStep net net') (hnode : net'.node = net.node)
      (hpast : net'.past = net.past) : NetStepIn texts goes net net'
  | acts {net net' : Network} (h : NetStep net net')
      (hnode : NodeStepIn texts goes net.node net'.node) (hpast : net'.past = net.past) :
      NetStepIn texts goes net net'
  | crashes {net : Network} :
      NetStepIn texts goes net
        { net with node := .new net.node.shared.files, past := net.workers }

abbrev NetRunIn (texts : String → Prop) (goes : Env → Shared → Op → Prop) :
    Network → Network → Prop :=
  Relation.ReflTransGen (NetStepIn texts goes)

theorem NetRunIn.run {texts : String → Prop} {goes : Env → Shared → Op → Prop}
    {net net' : Network} (h : NetRunIn texts goes net net') : NetRun net net' := by
  refine Relation.ReflTransGen.mono (fun net net' hstep => ?_) _ _ h
  cases hstep with
  | around hstep => exact hstep
  | acts hstep => exact hstep
  | crashes => exact .crashes

theorem netRunIn_true {net net' : Network} (h : NetRun net net') :
    NetRunIn (fun _ => True) (fun _ _ _ => True) net net' := by
  refine Relation.ReflTransGen.mono (fun net net' hstep => ?_) _ _ h
  cases id hstep with
  | prepares | opens | answers | fails => exact .around hstep rfl rfl
  | acts hnode => exact .acts hstep (nodeStepIn_true hnode) rfl
  | writes hnode => exact .acts hstep (nodeStepIn_true hnode) rfl
  | crashes => exact .crashes

/-- What the process does to the trace of its worker. -/
theorem NodeStep.workerTrace_cases {N N' : Node} (h : NodeStep N N') :
    N'.workerTrace = N.workerTrace ∨
      ∃ e answer, N'.workerTrace = N.workerTrace ++ [⟨e, answer⟩] := by
  cases h with
  | begins hcall call => exact Or.inl rfl
  | calling hcall env => exact Or.inl rfl
  | returns hcall => exact Or.inl rfl
  | spawned hworker hspawned turns =>
      left
      rw [Node.workerTrace, Node.workerTrace, hworker]
      rfl
  | @working turns trace e next hworker env =>
      refine Or.inr ⟨e, (execOp env N.shared e).1, ?_⟩
      rw [Node.workerTrace, Node.workerTrace, hworker]
      rfl

omit [SerdeJson] [Base64] [CaseTables] in
theorem workerTrace_new (files : String → Option String) :
    (Node.new files).workerTrace = [] := rfl

end Steps

/-- What is found after an update was put there, or was there before. -/
theorem update_eq_some {α β : Type} [DecidableEq α] {f : α → Option β} {a b : α} {x y : β}
    (h : Function.update f a (some x) b = some y) : (b = a ∧ y = x) ∨ f b = some y := by
  by_cases heq : b = a
  · subst heq
    rw [Function.update_self] at h
    exact Or.inl ⟨rfl, (Option.some.inj h).symm⟩
  · rw [Function.update_of_ne heq] at h
    exact Or.inr h

section Growth

/-- A trace of the network is that of an earlier worker, or of the present one. -/
theorem mem_workers {net : Network} {trace : Trace} :
    trace ∈ net.workers ↔ trace ∈ net.past ∨ trace = net.node.workerTrace := by
  simp [Network.workers]

/-- Nothing that has happened in the network is undone. -/
structure Grows (net net' : Network) : Prop where
  clients : ∀ i p, net.clients i = some p → net'.clients i = some p
  streams : ∀ streamId stream, net.streams streamId = some stream →
    ∃ stream', net'.streams streamId = some stream' ∧ stream'.sent = stream.sent ∧
      stream'.client = stream.client ∧ stream.written ⊆ stream'.written
  workers : ∀ (k : Nat) (trace : Trace), net.workers[k]? = some trace →
    ∃ more, net'.workers[k]? = some (trace ++ more)

theorem Grows.refl (net : Network) : Grows net net :=
  ⟨fun _ _ h => h, fun _ stream h => ⟨stream, h, rfl, rfl, List.Subset.refl _⟩,
    fun _ trace h => ⟨[], by rwa [List.append_nil]⟩⟩

/-- The last trace may grow. -/
theorem grows_workers {past : List Trace} {trace more : Trace} {k : Nat} {found : Trace}
    (h : (past ++ [trace])[k]? = some found) :
    ∃ more', (past ++ [trace ++ more])[k]? = some (found ++ more') := by
  rw [List.getElem?_append] at h ⊢
  split at h
  · rename_i hk
    rw [if_pos hk]
    exact ⟨[], by rwa [List.append_nil]⟩
  · rename_i hk
    rw [if_neg hk]
    rw [List.getElem?_singleton] at h ⊢
    split at h
    · rename_i hlast
      cases h
      exact ⟨more, by rw [if_pos hlast]⟩
    · cases h

theorem grows_node {net : Network} {N : Node} {more : Trace}
    (h : N.workerTrace = net.node.workerTrace ++ more) (k : Nat) (trace : Trace)
    (hk : net.workers[k]? = some trace) :
    ∃ more', ({ net with node := N } : Network).workers[k]? = some (trace ++ more') := by
  rw [Network.workers] at hk ⊢
  rw [h]
  exact grows_workers hk

variable [SerdeJson] [Base64] [CaseTables]

theorem NetStep.grows {net net' : Network} (h : NetStep net net') : Grows net net' := by
  cases h with
  | prepares i hnew hprepared hfits =>
      refine { Grows.refl net with clients := fun j p hj => ?_ }
      change Function.update net.clients i _ j = some p
      rw [Function.update_of_ne]
      · exact hj
      · rintro rfl
        cases hnew.symm.trans hj
  | opens streamId hfree sent client hclient =>
      refine { Grows.refl net with streams := fun streamId' stream hstream => ?_ }
      refine ⟨stream, ?_, rfl, rfl, List.Subset.refl _⟩
      change Function.update net.streams streamId _ streamId' = some stream
      rw [Function.update_of_ne]
      · exact hstream
      · rintro rfl
        cases hfree.symm.trans hstream
  | acts hstep hdelivers =>
      refine { Grows.refl net with workers := ?_ }
      rcases hstep.workerTrace_cases with hsame | ⟨e, answer, hmore⟩
      · exact @grows_node net _ [] (by rwa [List.append_nil])
      · exact grows_node hmore
  | @writes N hstep streamId bytes outcome htrace stream hstream =>
      refine ⟨(Grows.refl net).clients, fun streamId' stream' hstream' => ?_,
        grows_node htrace⟩
      by_cases heq : streamId' = streamId
      · subst heq
        cases hstream.symm.trans hstream'
        exact ⟨_, Function.update_self .., rfl, rfl, List.subset_append_left _ _⟩
      · exact ⟨stream', (Function.update_of_ne heq ..).trans hstream', rfl, rfl,
          List.Subset.refl _⟩
  | crashes =>
      refine { Grows.refl net with workers := fun k trace hk => ⟨[], ?_⟩ }
      have hlt : k < net.workers.length := (List.getElem?_eq_some_iff.mp hk).1
      rw [List.append_nil]
      exact (List.getElem?_append_left hlt).trans hk
  | answers => exact { Grows.refl net with }
  | fails => exact { Grows.refl net with }

omit [CaseTables] in
theorem Delivers.mono {net net' : Network} (hgrows : Grows net net') {event : Event Answer}
    (h : Delivers net.streams event) : Delivers net'.streams event := by
  intro streamId outcome bytes hevent hgave
  obtain ⟨stream, hstream, hsent⟩ := h streamId outcome bytes hevent hgave
  obtain ⟨stream', hstream', hsent', -⟩ := hgrows.streams streamId stream hstream
  exact ⟨stream', hstream', hsent'.trans hsent⟩

end Growth

section Calls

variable [SerdeJson] [Base64]

omit [Base64] in
/-- Values that read back are told apart by their texts. -/
theorem toText_inj {v w : Value} (hv : v.tree.plain 127 = true)
    (hw : w.tree.plain 127 = true) (h : SerdeJson.toText v = SerdeJson.toText w) : v = w := by
  have hreads := (SerdeJson.toText_reads v).1 hv
  rw [h, (SerdeJson.toText_reads w).1 hw] at hreads
  exact (Except.ok.inj hreads).symm

omit [Base64] in
theorem blob_inj {v w : Value} (hv : v.tree.plain 127 = true) (hw : w.tree.plain 127 = true)
    (h : SerdeJson.toText (blob v) = SerdeJson.toText (blob w)) : v = w := by
  have hitems := congrArg Value.asArray (toText_inj rfl rfl h)
  rw [blob, blob, Value.asArray_array, Value.asArray_array, Option.some.injEq,
    List.cons.injEq] at hitems
  have htext := congrArg Value.asStr hitems.1
  rw [Value.asStr_string, Value.asStr_string, Option.some.injEq] at htext
  exact toText_inj hv hw htext

omit [SerdeJson] in
theorem b64_inj {bytes bytes' : List UInt8} (h : b64 bytes = b64 bytes') : bytes = bytes' := by
  have hdecode := b64Decode_b64 bytes
  rw [h, b64Decode_b64] at hdecode
  exact (Except.ok.inj hdecode).symm

/-- A write says what is written, and on which stream. -/
theorem writeCall_inj {streamId streamId' : UInt64} {bytes bytes' : List UInt8}
    (h : writeCall streamId bytes = writeCall streamId' bytes') :
    streamId = streamId' ∧ bytes = bytes' := by
  have hplain : ∀ (streamId : UInt64) (text : String),
      (Value.object [("streamId", .u64 streamId), ("dataB64", .string text)]).tree.plain 127 =
        true := by
    intro streamId text
    apply Value.plain_object
    simp only [List.forall_mem_cons, List.not_mem_nil, false_implies, implies_true, and_true]
    exact ⟨rfl, rfl⟩
  injection h with _ _ hargs
  have hobject := blob_inj (hplain _ _) (hplain _ _) hargs
  have hstream := congrArg (fun v => (Value.get v "streamId").bind Value.asU64) hobject
  have hdata := congrArg (fun v => (Value.get v "dataB64").bind Value.asStr) hobject
  constructor
  · simpa [Value.object, Value.get_insert] using hstream
  · apply b64_inj
    simpa [Value.object, Value.get_insert] using hdata

omit [Base64] in
/-- A read says which stream is read. -/
theorem readCall_inj {streamId streamId' : UInt64} (h : readCall streamId = readCall streamId') :
    streamId = streamId' := by
  have hplain : ∀ streamId : UInt64, (Value.object [("streamId", .u64 streamId),
      ("maxSize", .u64 maxRpcSize), ("timeoutMs", .u64 readTimeoutMs)]).tree.plain 127 =
        true := by
    intro streamId
    apply Value.plain_object
    simp only [List.forall_mem_cons, List.not_mem_nil, false_implies, implies_true, and_true]
    exact ⟨rfl, rfl, rfl⟩
  injection h with _ _ hargs
  have hobject := blob_inj (hplain _) (hplain _) hargs
  have hstream := congrArg (fun v => (Value.get v "streamId").bind Value.asU64) hobject
  simpa [Value.object, Value.get_insert] using hstream

end Calls

section Runs

variable [SerdeJson] [Base64] [CaseTables]

/-- Worker `k` of the network wrote these bytes on the stream. -/
def Wrote (net : Network) (k : Nat) (streamId : UInt64) (bytes : List UInt8) : Prop :=
  ∃ (before after : Trace) (outcome : Outcome),
    net.workers[k]? = some (before ++ ⟨writeCall streamId bytes, outcome⟩ :: after)

/-- A client was told this by its own stream. -/
def Heard (net : Network) (i : Nat) (v : Value) : Prop :=
  ∃ (p : Prepared) (streamId : UInt64) (stream : Stream) (bytes : List UInt8) (reply : Value),
    net.clients i = some p ∧ net.streams streamId = some stream ∧ stream.client = some i ∧
    bytes ∈ stream.written ∧ bytes.length < 2 ^ 64 ∧
    (reply.get "responseB64").bind Value.asStr = some (b64 bytes) ∧ readReply p reply = .ok v

/-- What the runs of the network keep. -/
structure NetKept (net : Network) : Prop where
  node : WorkerKept net.node
  workers : ∀ trace ∈ net.workers, WellKept trace
  delivered : ∀ trace ∈ net.workers, ∀ event ∈ trace, Delivers net.streams event
  prepared : ∀ i p, net.clients i = some p → p.req.encode.length < 2 ^ 64 ∧
    ∃ who argsJson prepared, (prepareRequest who argsJson).After prepared (.ret (.ok p))
  sent : ∀ streamId stream i, net.streams streamId = some stream → stream.client = some i →
    ∃ p, net.clients i = some p ∧ stream.sent = p.req.encode
  written : ∀ streamId stream bytes, net.streams streamId = some stream →
    bytes ∈ stream.written → ∃ k, Wrote net k streamId bytes
  told : ∀ i v, net.told i = some (.ok v) → Heard net i v

omit [CaseTables] in
theorem Wrote.mono {net net' : Network} (hgrows : Grows net net') {k : Nat}
    {streamId : UInt64} {bytes : List UInt8} (h : Wrote net k streamId bytes) :
    Wrote net' k streamId bytes := by
  obtain ⟨before, after, outcome, hk⟩ := h
  obtain ⟨more, hk'⟩ := hgrows.workers k _ hk
  exact ⟨before, after ++ more, outcome, by rw [hk']; simp⟩

omit [CaseTables] in
theorem Heard.mono {net net' : Network} (hgrows : Grows net net') {i : Nat}
    {v : Value} (h : Heard net i v) : Heard net' i v := by
  obtain ⟨p, streamId, stream, bytes, reply, hclient, hstream, hown, hwritten, hfits, hreply,
    hread⟩ := h
  obtain ⟨stream', hstream', -, hclient', hsub⟩ := hgrows.streams streamId stream hstream
  exact ⟨p, streamId, stream', bytes, reply, hgrows.clients i p hclient, hstream',
    hclient'.trans hown, hsub hwritten, hfits, hreply, hread⟩

theorem netKept_start (files : String → Option String) : NetKept (.start files) where
  node := workerKept_new files
  workers := by
    intro trace htrace
    cases List.mem_singleton.mp htrace
    exact wellKept_nil
  delivered := by
    intro trace htrace event hevent
    cases List.mem_singleton.mp htrace
    cases hevent
  prepared := nofun
  sent := nofun
  written := nofun
  told := nofun

theorem WorkerKept.trace {N : Node} (h : WorkerKept N) : WellKept N.workerTrace := by
  rw [Node.workerTrace]
  cases hworker : N.worker with
  | none => exact wellKept_nil
  | some w => exact h.kept w hworker

/-- A step of the process keeps what is asked of the workers. -/
theorem NetKept.moves {net net' : Network} (h : NetKept net) (hgrows : Grows net net')
    {N : Node} (hstep : NodeStep net.node N) (hnode : net'.node = N)
    (hpast : net'.past = net.past)
    (hdelivers : ∀ event, N.workerTrace = net.node.workerTrace ++ [event] →
      Delivers net'.streams event) :
    WorkerKept net'.node ∧ (∀ trace ∈ net'.workers, WellKept trace) ∧
      ∀ trace ∈ net'.workers, ∀ event ∈ trace, Delivers net'.streams event := by
  have hkept := h.node.step hstep
  have hpresent : ∀ event ∈ net.node.workerTrace, Delivers net'.streams event :=
    fun event hevent => (h.delivered _ (mem_workers.mpr (Or.inr rfl)) event hevent).mono hgrows
  subst hnode
  refine ⟨hkept, fun trace htrace => ?_, fun trace htrace event hevent => ?_⟩
  · rcases mem_workers.mp htrace with hold | rfl
    · exact h.workers trace (mem_workers.mpr (Or.inl (hpast ▸ hold)))
    · exact hkept.trace
  · rcases mem_workers.mp htrace with hold | rfl
    · exact (h.delivered trace (mem_workers.mpr (Or.inl (hpast ▸ hold))) event hevent).mono
        hgrows
    · rcases hstep.workerTrace_cases with hsame | ⟨e, answer, hmore⟩
      · rw [hsame] at hevent
        exact hpresent event hevent
      · rw [hmore, List.mem_append, List.mem_singleton] at hevent
        rcases hevent with hevent | rfl
        · exact hpresent event hevent
        · exact hdelivers _ hmore

theorem NetKept.step {net net' : Network} (h : NetKept net) (hstep : NetStep net net') :
    NetKept net' := by
  have hgrows := hstep.grows
  have hdelivered : ∀ trace ∈ net.workers, ∀ event ∈ trace, Delivers net'.streams event :=
    fun trace htrace event hevent => (h.delivered trace htrace event hevent).mono hgrows
  have hsent : ∀ {stream : Stream} {i : Nat},
      (∃ p, net.clients i = some p ∧ stream.sent = p.req.encode) →
        ∃ p, net'.clients i = some p ∧ stream.sent = p.req.encode := by
    rintro stream i ⟨p, hclient, hsent⟩
    exact ⟨p, hgrows.clients i p hclient, hsent⟩
  have hwritten : ∀ {streamId : UInt64} {stream : Stream} {bytes : List UInt8},
      net.streams streamId = some stream → bytes ∈ stream.written →
        ∃ k, Wrote net' k streamId bytes := by
    intro streamId stream bytes hstream hbytes
    obtain ⟨k, hk⟩ := h.written streamId stream bytes hstream hbytes
    exact ⟨k, hk.mono hgrows⟩
  have htold : ∀ {i : Nat} {v : Value}, net.told i = some (.ok v) → Heard net' i v :=
    fun hi => (h.told _ _ hi).mono hgrows
  cases hstep with
  | @prepares i hnew who argsJson prepared p hprepared hfits =>
      refine ⟨h.node, h.workers, hdelivered, fun j q hj => ?_,
        fun streamId stream j hstream hown => hsent (h.sent streamId stream j hstream hown),
        fun streamId stream bytes => hwritten, fun i v => htold⟩
      rcases update_eq_some hj with ⟨-, rfl⟩ | hold
      · exact ⟨hfits, who, argsJson, prepared, hprepared⟩
      · exact h.prepared j q hold
  | @opens streamId hfree sent client hclient =>
      refine ⟨h.node, h.workers, hdelivered, h.prepared, fun streamId' stream j hstream hown => ?_,
        fun streamId' stream bytes hstream hbytes => ?_, fun i v => htold⟩
      · rcases update_eq_some hstream with ⟨-, rfl⟩ | hold
        · exact hclient j hown
        · exact h.sent streamId' stream j hold hown
      · rcases update_eq_some hstream with ⟨-, rfl⟩ | hold
        · cases hbytes
        · exact hwritten hold hbytes
  | @acts N hstep hdelivers =>
      obtain ⟨hnode, hworkers, hdelivered⟩ := h.moves hgrows hstep rfl rfl hdelivers
      exact ⟨hnode, hworkers, hdelivered, h.prepared, h.sent,
        fun streamId stream bytes => hwritten, fun i v => htold⟩
  | @writes N hstep streamId bytes outcome htrace stream hstream =>
      have hwrites : ∀ event, N.workerTrace = net.node.workerTrace ++ [event] →
          Delivers (Function.update net.streams streamId
            (some { stream with written := stream.written ++ [bytes] })) event := by
        intro event hevent streamId' outcome' bytes' hread
        rw [htrace] at hevent
        obtain ⟨-, hlast⟩ := List.append_inj' hevent rfl
        rw [← (List.cons.inj hlast).1] at hread
        obtain ⟨hread, -⟩ := Sigma.mk.inj hread
        injection hread with _ hmethod
        exact absurd hmethod (by decide)
      obtain ⟨hnode, hworkers, hdelivered⟩ := h.moves hgrows hstep rfl rfl hwrites
      refine ⟨hnode, hworkers, hdelivered, h.prepared,
        fun streamId' stream' j hstream' hown => ?_,
        fun streamId' stream' bytes' hstream' hbytes => ?_, fun i v => htold⟩
      · rcases update_eq_some hstream' with ⟨rfl, rfl⟩ | hold
        · exact h.sent streamId' stream j hstream hown
        · exact h.sent streamId' stream' j hold hown
      · rcases update_eq_some hstream' with ⟨rfl, rfl⟩ | hold
        · rcases List.mem_append.mp hbytes with hbytes | hbytes
          · exact hwritten hstream hbytes
          · obtain rfl := List.mem_singleton.mp hbytes
            refine ⟨net.past.length, net.node.workerTrace, [], outcome, ?_⟩
            rw [Network.workers, List.getElem?_append_right (Nat.le_refl _), Nat.sub_self]
            exact congrArg some htrace
        · exact hwritten hold hbytes
  | crashes =>
      refine ⟨workerKept_new _, fun trace htrace => ?_, fun trace htrace => ?_, h.prepared, h.sent,
        fun streamId stream bytes => hwritten, fun i v => htold⟩
      · rcases mem_workers.mp htrace with hold | rfl
        · exact h.workers trace hold
        · exact wellKept_nil
      · rcases mem_workers.mp htrace with hold | rfl
        · exact h.delivered trace hold
        · exact fun event hevent => absurd hevent List.not_mem_nil
  | @answers i hwaits p hclient streamId stream hstream hown bytes hbytes hfits reply hreply =>
      refine ⟨h.node, h.workers, h.delivered, h.prepared, h.sent,
        fun streamId stream bytes => hwritten, fun j v hj => ?_⟩
      rcases update_eq_some hj with ⟨rfl, hread⟩ | hold
      · exact ⟨p, streamId, stream, bytes, reply, hclient, hstream, hown, hbytes, hfits, hreply,
          hread.symm⟩
      · exact htold hold
  | @fails i hwaits e =>
      refine ⟨h.node, h.workers, h.delivered, h.prepared, h.sent,
        fun streamId stream bytes => hwritten, fun j v hj => ?_⟩
      rcases update_eq_some hj with ⟨-, hread⟩ | hold
      · cases hread
      · exact htold hold

theorem netKept_run {files : String → Option String} {net : Network}
    (hrun : NetRun (.start files) net) : NetKept net := by
  induction hrun with
  | refl => exact netKept_start files
  | tail _ hstep ih => exact ih.step hstep

/-- Client `i`, whose request is `p`, was told `v` for what worker `k` made of that request:
the request was authenticated, registered and confirmed, and this is its membership. -/
structure Bought (net : Network) (i : Nat) (v : Value) (p : Prepared) (k : Nat)
    (handled : Trace) : Prop where
  client : net.clients i = some p
  worker : ∃ trace, net.workers[k]? = some trace ∧ handled <:+: trace
  handles : ∃ resp, (handleRequest p.req.encode).After handled (.ret resp)
  membership : ∃ cfg success, RegisterReturned p.req.encode handled (.ok success) ∧
    ReturnsMembership p handled cfg success v

omit [Base64] in
theorem Bought.granted {net : Network} {i : Nat} {v : Value} {p : Prepared} {k : Nat}
    {handled : Trace} (h : Bought net i v p k handled) : Granted p.req.encode handled := by
  obtain ⟨cfg, success, hreturned, -⟩ := h.membership
  exact ⟨.ok success, hreturned, nofun⟩

/-- What stands behind the bytes written on a stream. -/
theorem NetKept.answered {net : Network} (h : NetKept net) {streamId : UInt64}
    {stream : Stream} {bytes : List UInt8} (hstream : net.streams streamId = some stream)
    (hwritten : bytes ∈ stream.written) :
    ∃ (k : Nat) (resp : RlnGifterResponse) (earlier handled before : Trace) (outcome : Outcome)
      (after : Trace), bytes = resp.encode ∧
      net.workers[k]? = some (before ++ ⟨writeCall streamId resp.encode, outcome⟩ :: after) ∧
      Answering before streamId stream.sent resp earlier handled := by
  obtain ⟨k, before, after, outcome, hk⟩ := h.written streamId stream bytes hstream hwritten
  have hmem := List.mem_of_getElem? hk
  obtain ⟨streamId', buf, resp, earlier, handled, hcall, hanswering⟩ :=
    (h.workers _ hmem).writes before (writeCall streamId bytes) outcome after rfl
      fun hoff => hoff rfl rfl
  obtain ⟨rfl, rfl⟩ := writeCall_inj hcall
  -- what was read is what had been sent
  obtain ⟨⟨looked, rfl, hlooked⟩, ⟨front, given, rfl, hgave⟩, hhandles⟩ := hanswering
  obtain ⟨stream', hstream', rfl⟩ := h.delivered _ hmem ⟨readCall streamId, given⟩
    (by simp) streamId given buf rfl hgave
  cases hstream.symm.trans hstream'
  exact ⟨k, resp, _, handled, _, outcome, after, rfl, hk, ⟨looked, rfl, hlooked⟩,
    ⟨front, given, rfl, hgave⟩, hhandles⟩

/-- The trace of a handled request is part of the worker's. -/
theorem Answering.handled_infix {before : Trace} {streamId : UInt64} {buf : List UInt8}
    {resp : RlnGifterResponse} {earlier handled : Trace} (h : Answering before streamId buf resp
      earlier handled) (after : Trace) : handled <:+: before ++ after := by
  obtain ⟨⟨looked, rfl, -⟩, -⟩ := h
  exact ⟨earlier, looked ++ after, by simp⟩

/-- What stands behind a membership that a client was told of. -/
theorem NetKept.heard {net : Network} (h : NetKept net) {i : Nat} {v : Value}
    (htold : Heard net i v) :
    ∃ p k streamId stream resp earlier handled before outcome after,
      Bought net i v p k handled ∧
      net.streams streamId = some stream ∧ stream.client = some i ∧
      net.workers[k]? = some (before ++ ⟨writeCall streamId resp.encode, outcome⟩ :: after) ∧
      Answering before streamId p.req.encode resp earlier handled := by
  obtain ⟨p, streamId, stream, bytes, reply, hclient, hstream, hown, hwritten, hfits, hreply,
    hread⟩ := htold
  obtain ⟨k, resp, earlier, handled, before, outcome, after, rfl, hk, hanswering⟩ :=
    h.answered hstream hwritten
  -- the request that was read is the client's own
  obtain ⟨p', hclient', hsent⟩ := h.sent streamId stream i hstream hown
  cases hclient.symm.trans hclient'
  rw [hsent] at hanswering
  obtain ⟨hfits', who, argsJson, prepared, hprepared⟩ := h.prepared i p hclient
  have hhandles := hanswering.handles
  have hagree := readResponse_agrees hprepared hhandles hfits' hfits
  have hresult : readReply p reply = readResponse p resp := by
    simp only [readReply, hreply, b64Decode_b64]
    change (RlnGifterResponse.decode resp.encode >>= readResponse p) = _
    rw [hagree.delivered.2.1]
    rfl
  rw [hresult] at hread
  obtain ⟨success, hreturned⟩ := hagree.ok_iff.mp ⟨v, hread⟩
  obtain ⟨cfg, v', hv', hmembership⟩ := hagree.granted success hreturned
  obtain rfl := Except.ok.inj (hread.symm.trans hv')
  exact ⟨p, k, streamId, stream, resp, earlier, handled, before, outcome, after,
    ⟨hclient, ⟨_, hk, hanswering.handled_infix _⟩, ⟨resp, hhandles⟩, cfg, success, hreturned,
      hmembership⟩, hstream, hown, hk, hanswering⟩

end Runs

/-- A call of the bridge off the owner thread, or a look for its client. -/
def OnBridge : Op → Prop
  | .findClient _ | .readOwner => True
  | .invokeAsync target _ _ _ => target = libp2pModule
  | _ => False

theorem callLibp2p_onBridge [SerdeJson] {method : String} {args : Value} {timeoutMs : Int} :
    (callLibp2p .worker method args timeoutMs).Only OnBridge := by
  apply only_of_after
  intro trace e next h
  cases callLibp2p_worker_run h with
  | running _ _ _ _ he =>
      rcases he with he | rfl
      · cases e <;> first | exact he | trivial
      · rfl

section Served

variable [SerdeJson] [Base64] [CaseTables] {texts : String → Prop}
  {goes : Env → Shared → Op → Prop}

/-- The events of a trace go as in `goes`, whatever brought them about. -/
def Allows (goes : Env → Shared → Op → Prop) (trace : Trace) : Prop :=
  ∀ env s e, ⟨e, (execOp env s e).1⟩ ∈ trace → goes env s e

omit [SerdeJson] [Base64] in
theorem allows_append {first second : Trace} :
    Allows goes (first ++ second) ↔ Allows goes first ∧ Allows goes second := by
  simp only [Allows, List.mem_append, or_imp, forall_and]

omit [CaseTables] in
/-- Events that are no reads deliver nothing. -/
theorem delivers_of_ne {streams : UInt64 → Option Stream} {event : Event Answer}
    (h : ∀ streamId, event.1 ≠ readCall streamId) : Delivers streams event := by
  rintro streamId outcome bytes rfl -
  exact absurd rfl (h streamId)

omit [CaseTables] in
theorem delivers_of_lookup {streams : UInt64 → Option Stream} {event : Event Answer}
    (h : Lookup event.1) : Delivers streams event := by
  apply delivers_of_ne
  intro streamId heq
  rw [heq] at h
  exact h

omit [CaseTables] in
theorem delivers_of_call {streams : UInt64 → Option Stream} {s : Shared} {method args : String}
    {timeoutMs : Int} {outcome : Outcome} (hmethod : method ≠ "streamReadLpJson") :
    ∀ event ∈ callTrace s libp2pModule method args timeoutMs outcome, Delivers streams event := by
  simp only [callTrace, List.forall_mem_cons, List.not_mem_nil, false_implies, implies_true,
    and_true]
  refine ⟨delivers_of_lookup trivial, delivers_of_lookup trivial, delivers_of_lookup trivial,
    delivers_of_ne fun streamId heq => ?_⟩
  injection heq with _ heq
  exact hmethod heq

/-- The worker acts while the rest of the network waits. -/
theorem NetRunIn.acts {net : Network} {turns : Nat} {before trace : Trace} {p q : Prog Unit}
    {s : Shared} {envs : List Env} (hworker : net.node.worker = some ⟨turns, before, p⟩)
    (h : Does execOp p net.node.shared envs trace q s) (hallows : Allows goes trace)
    (hdelivers : ∀ event ∈ trace, Delivers net.streams event) :
    NetRunIn texts goes net { net with
      node := { net.node with
        shared := s, worker := some ⟨turns, before ++ trace, q⟩ } } := by
  obtain ⟨⟨shared, call, served, worker⟩, past, clients, streams, told⟩ := net
  change worker = _ at hworker
  subst hworker
  change Does execOp p shared envs trace q s at h
  induction h generalizing before with
  | done p s =>
      rw [List.append_nil]
  | @act e next s s' env envs trace q _ ih =>
      obtain ⟨hfirst, hrest⟩ := List.forall_mem_cons.mp hdelivers
      have hlast := @ih (before ++ [⟨e, (execOp env s e).1⟩])
        (fun env s e hmem => hallows env s e (List.mem_cons_of_mem _ hmem)) hrest
      rw [List.append_assoc] at hlast
      have hgoes := hallows env s e List.mem_cons_self
      refine .head (.acts (.acts (.working rfl env) fun event hevent => ?_)
        (.working rfl env hgoes) rfl) hlast
      obtain ⟨-, heq⟩ := List.append_inj' hevent rfl
      rw [← (List.cons.inj heq).1]
      exact hfirst

/-- The worker writes while the rest of the network waits. -/
theorem NetStepIn.written (net : Network) {turns : Nat} {before : Trace} {p q : Prog Unit}
    {s : Shared} {envs : List Env} {streamId : UInt64} {bytes : List UInt8}
    {outcome : Outcome} {stream : Stream} (hworker : net.node.worker = some ⟨turns, before, p⟩)
    (h : Does execOp p net.node.shared envs [⟨writeCall streamId bytes, outcome⟩] q s)
    (hallows : Allows goes [⟨writeCall streamId bytes, outcome⟩])
    (hstream : net.streams streamId = some stream) :
    NetStepIn texts goes net { net with
      node := { net.node with
        shared := s
        worker := some ⟨turns, before ++ [⟨writeCall streamId bytes, outcome⟩], q⟩ }
      streams := Function.update net.streams streamId
        (some { stream with written := stream.written ++ [bytes] }) } := by
  obtain ⟨⟨shared, call, served, worker⟩, past, clients, streams, told⟩ := net
  change worker = _ at hworker
  subst hworker
  obtain ⟨env, next, rfl, rfl, hexec, rfl⟩ := does_single h
  change execOp env shared (writeCall streamId bytes) = (outcome, s) at hexec
  have hgoes := hallows env shared (writeCall streamId bytes) (by rw [hexec]; simp)
  have hstep : NodeStep _ _ := .working (N := ⟨shared, call, served,
    some ⟨turns, before, .op (writeCall streamId bytes) next⟩⟩) rfl env
  have hstepIn : NodeStepIn texts goes _ _ := .working (N := ⟨shared, call, served,
    some ⟨turns, before, .op (writeCall streamId bytes) next⟩⟩) rfl env hgoes
  rw [hexec] at hstep hstepIn
  exact .acts (.writes hstep rfl hstream) hstepIn rfl

/-- The worker's part of a run in which it writes once. -/
theorem NetRunIn.works {net : Network} {turns : Nat} {before first last : Trace}
    {p q : Prog Unit} {s : Shared} {envs : List Env} {streamId : UInt64} {bytes : List UInt8}
    {outcome : Outcome} {stream : Stream} (hworker : net.node.worker = some ⟨turns, before, p⟩)
    (h : Does execOp p net.node.shared envs
      (first ++ ([⟨writeCall streamId bytes, outcome⟩] ++ last)) q s)
    (hallows : Allows goes (first ++ ([⟨writeCall streamId bytes, outcome⟩] ++ last)))
    (hfirst : ∀ event ∈ first, Delivers net.streams event)
    (hlast : ∀ streams, ∀ event ∈ last, Delivers streams event)
    (hstream : net.streams streamId = some stream) :
    NetRunIn texts goes net { net with
      node := { net.node with
        shared := s
        worker := some ⟨turns, before ++
          (first ++ ([⟨writeCall streamId bytes, outcome⟩] ++ last)), q⟩ }
      streams := Function.update net.streams streamId
        (some { stream with written := stream.written ++ [bytes] }) } := by
  obtain ⟨_, _, mid, r, -, hdoesFirst, hrest⟩ := does_append h
  obtain ⟨_, _, mid', r', -, hdoesWrite, hdoesLast⟩ := does_append hrest
  simp only [allows_append] at hallows
  obtain ⟨hallowsFirst, hallowsWrite, hallowsLast⟩ := hallows
  have hwrite := @NetStepIn.written _ _ _ texts goes { net with
    node := { net.node with
      shared := r
      worker := some ⟨turns, before ++ first, mid⟩ } } _ _ _ _ _ _ _ _ _ _ rfl hdoesWrite
    hallowsWrite hstream
  have hrun := ((NetRunIn.acts hworker hdoesFirst hallowsFirst hfirst).tail hwrite).trans
    (NetRunIn.acts rfl hdoesLast hallowsLast (hlast _))
  simpa only [List.append_assoc] using hrun

/-- The bridge hands out a stream. -/
def acceptReply (streamId : UInt64) : Value :=
  .object [("streamId", .u64 streamId)]

/-- The bridge hands over what was sent on a stream. -/
def readReplyOf (bytes : List UInt8) : Value :=
  .object [("dataB64", .string (b64 bytes))]

/-- A call of the bridge that is no read. -/
theorem bridge_does {s : Shared} {method : String} (args : Value) (timeoutMs : Int)
    (outcome : Outcome) (hopen : libp2pModule ∈ s.clients) (hmethod : hasNul method = false)
    (hread : method ≠ "streamReadLpJson") :
    ∃ envs trace, Does execOp (callLibp2p .worker method args timeoutMs) s envs trace
        (.ret (libp2pResult method outcome.seen)) s ∧
      ∀ streams, ∀ event ∈ trace, Delivers streams event :=
  ⟨_, _, callLibp2p_does args timeoutMs outcome hopen hmethod, fun _ => delivers_of_call hread⟩

omit [SerdeJson] [CaseTables] in
theorem requestBytes_readReplyOf (buf : List UInt8) :
    requestBytes (readReplyOf buf) = .ok buf := by
  have hget : (readReplyOf buf).get "dataB64" = some (.string (b64 buf)) := by
    simp [readReplyOf, Value.object, Value.get_insert]
  simp [requestBytes, hget]

/-- The read of what was sent on a stream. -/
theorem readStream_serves {s : Shared} (streamId : UInt64) (buf : List UInt8)
    (hopen : libp2pModule ∈ s.clients) :
    ∃ envs trace, Does execOp (readStream streamId) s envs trace
        (.ret (.ok (readReplyOf buf))) s ∧
      ∀ streams stream, streams streamId = some stream → stream.sent = buf →
        ∀ event ∈ trace, Delivers streams event := by
  have hread : Does execOp (readStream streamId) s _ _ _ s :=
    callLibp2p_does _ _ (bridgeReply (readReplyOf buf)) hopen (by decide)
  have hresult : libp2pResult "streamReadLpJson" (bridgeReply (readReplyOf buf)).seen =
      .ok (readReplyOf buf) := libp2pResult_bridgeReply rfl rfl rfl _
  rw [hresult] at hread
  refine ⟨_, _, hread, fun streams stream hstream hsent => ?_⟩
  simp only [callTrace, List.forall_mem_cons, List.not_mem_nil, false_implies, implies_true,
    and_true]
  refine ⟨delivers_of_lookup trivial, delivers_of_lookup trivial, delivers_of_lookup trivial, ?_⟩
  intro streamId' outcome bytes hevent hgave
  obtain ⟨hcall, houtcome⟩ := Sigma.mk.inj hevent
  obtain rfl := readCall_inj hcall
  rw [← eq_of_heq houtcome, ReadGave, hresult] at hgave
  change requestBytes (readReplyOf buf) = .ok bytes at hgave
  rw [requestBytes_readReplyOf] at hgave
  exact ⟨stream, hstream, hsent.trans (Except.ok.inj hgave)⟩

/-- The write of a response; whether it arrives the bridge does not say. -/
theorem writeStream_serves {s : Shared} (streamId : UInt64) (resp : RlnGifterResponse)
    (hopen : libp2pModule ∈ s.clients) :
    ∃ envs looked outcome r, Does execOp (writeStream streamId resp) s envs
        (looked ++ [⟨writeCall streamId resp.encode, outcome⟩]) (.ret r) s ∧
      ∀ streams, ∀ event ∈ looked, Delivers streams event := by
  have hwrite : Does execOp (writeStream streamId resp) s _ _ _ s :=
    callLibp2p_does _ _ ⟨.timedOut, false⟩ hopen (by decide)
  refine ⟨_, [⟨.findClient libp2pModule, true⟩, ⟨.findClient libp2pModule, true⟩,
    ⟨.readOwner, s.owner⟩], _, _, hwrite, fun streams => ?_⟩
  simp only [List.forall_mem_cons, List.not_mem_nil, false_implies, implies_true, and_true]
  exact ⟨delivers_of_lookup trivial, delivers_of_lookup trivial, delivers_of_lookup trivial⟩

theorem handleStream_serves {s s' : Shared} (streamId : UInt64) {buf : List UInt8}
    {resp : RlnGifterResponse} {handled : Trace} {envs : List Env}
    (hopen : libp2pModule ∈ s.clients) (hopen' : libp2pModule ∈ s'.clients)
    (h : Does execOp (handleRequest buf) s envs handled (.ret resp) s') :
    ∃ envs' first outcome last, Does execOp (handleStream streamId) s envs'
        (first ++ ([⟨writeCall streamId resp.encode, outcome⟩] ++ last)) (.ret (.ok ())) s' ∧
      (∀ event ∈ first ++ last, event ∈ handled ∨ OnBridge event.1) ∧
      (∀ streams stream, streams streamId = some stream → stream.sent = buf →
        ∀ event ∈ first, Delivers streams event) ∧
      ∀ streams, ∀ event ∈ last, Delivers streams event := by
  obtain ⟨_, reading, hread, hreading⟩ := readStream_serves streamId buf hopen
  obtain ⟨_, looked, outcome, r, hwrite, hlooked⟩ := writeStream_serves streamId resp hopen'
  obtain ⟨_, releasing, hrelease, hreleasing⟩ :=
    bridge_does (blob (.object [("streamId", .u64 streamId)])) releaseTimeoutMs
      ⟨.timedOut, false⟩ hopen' (show hasNul "streamReleaseJson" = false by decide) (by decide)
  have hhandle : ∃ envs', Does execOp (handleStream streamId) s envs'
      (reading ++ (handled ++ (looked ++ [⟨writeCall streamId resp.encode, outcome⟩] ++
        (releasing ++ [])))) (.ret (.ok ())) s' := by
    refine Does.bind_exists ⟨_, hread⟩ ?_
    simp only [requestBytes_readReplyOf]
    exact ⟨_, h.bind (hwrite.bind (hrelease.bind (.done _ _)))⟩
  obtain ⟨_, hhandle⟩ := hhandle
  refine ⟨_, reading ++ (handled ++ looked), outcome, releasing, by simpa using hhandle,
    fun event hevent => ?_, fun streams stream hstream hsent event hevent => ?_, hreleasing⟩
  · have honBridge : ∀ {method : String} {args : Value} {timeoutMs : Int} {s s' : Shared}
        {envs : List Env} {trace : Trace} {q : Prog (Except String Value)},
        Does execOp (callLibp2p .worker method args timeoutMs) s envs trace q s' →
        ∀ event ∈ trace, OnBridge event.1 :=
      fun hdoes => (only_after callLibp2p_onBridge hdoes.after).1
    simp only [List.mem_append] at hevent
    rcases hevent with (hevent | hevent | hevent) | hevent
    · exact Or.inr (honBridge hread event hevent)
    · exact Or.inl hevent
    · exact Or.inr (honBridge hwrite event (List.mem_append_left _ hevent))
    · exact Or.inr (honBridge hrelease event hevent)
  rcases List.mem_append.mp hevent with hevent | hevent
  · exact hreading streams stream hstream hsent event hevent
  · rcases List.mem_append.mp hevent with hevent | hevent
    · have hasks := (only_after (handleRequest_asksModule buf) h.after).1 event hevent
      refine delivers_of_ne fun streamId' heq => ?_
      rw [heq] at hasks
      rcases hasks with hasks | hasks | hasks <;> exact absurd hasks (by decide)
    · exact hlooked streams event hevent

/-- A turn in which the bridge hands out a stream and the request that was sent on it. -/
theorem workerTurn_serves {s s' : Shared} (streamId : UInt64) {buf : List UInt8}
    {resp : RlnGifterResponse} {handled : Trace} {envs : List Env}
    (hopen : libp2pModule ∈ s.clients) (hopen' : libp2pModule ∈ s'.clients)
    (h : Does execOp (handleRequest buf) s envs handled (.ret resp) s') :
    ∃ envs' first outcome last, Does execOp workerTurn s envs'
        (first ++ ([⟨writeCall streamId resp.encode, outcome⟩] ++ last)) (.ret ()) s' ∧
      (∀ event ∈ first ++ last, event ∈ handled ∨ OnBridge event.1) ∧
      (∀ streams stream, streams streamId = some stream → stream.sent = buf →
        ∀ event ∈ first, Delivers streams event) ∧
      ∀ streams, ∀ event ∈ last, Delivers streams event := by
  obtain ⟨_, accepting, haccept, haccepting⟩ :=
    bridge_does (blob (.object [("proto", .string rlnGifterCodec),
      ("timeoutMs", .u64 acceptTimeoutMs)])) acceptTimeoutMs.toNat
      (bridgeReply (acceptReply streamId)) hopen
      (show hasNul "protocolAcceptStream" = false by decide) (by decide)
  obtain ⟨_, first, outcome, last, hhandle, hevents, hfirst, hlast⟩ :=
    handleStream_serves streamId hopen hopen' h
  rw [libp2pResult_bridgeReply rfl rfl rfl] at haccept
  have hstream : acceptedStream (.ok (acceptReply streamId)) = some streamId := by
    simp [acceptedStream, acceptReply, Value.object, Value.get_insert]
  have hturn : ∃ envs', Does execOp workerTurn s envs' (accepting ++
      (first ++ ([⟨writeCall streamId resp.encode, outcome⟩] ++ last) ++ [])) (.ret ()) s' := by
    rw [workerTurn]
    refine Does.bind_exists ⟨_, haccept⟩ ?_
    simp only [hstream]
    exact ⟨_, hhandle.bind (.done _ _)⟩
  obtain ⟨_, hturn⟩ := hturn
  refine ⟨_, accepting ++ first, outcome, last, by simpa using hturn, fun event hevent => ?_,
    fun streams stream hstream hsent event hevent => ?_, hlast⟩
  · rw [List.append_assoc] at hevent
    rcases List.mem_append.mp hevent with hevent | hevent
    · exact Or.inr ((only_after callLibp2p_onBridge haccept.after).1 event hevent)
    · exact hevents event hevent
  rcases List.mem_append.mp hevent with hevent | hevent
  · exact haccepting streams event hevent
  · exact hfirst streams stream hstream hsent event hevent

/-- The gifter serves a stream in one turn of its loop. -/
theorem NetRunIn.serves (net : Network) (streamId : UInt64) {turns n : Nat}
    {before handled : Trace} {stream : Stream} {resp : RlnGifterResponse} {envs : List Env}
    {s : Shared} (hworker : net.node.worker = some ⟨turns, before, workerLoop (n + 1)⟩)
    (hstream : net.streams streamId = some stream)
    (hopen : libp2pModule ∈ net.node.shared.clients) (hopen' : libp2pModule ∈ s.clients)
    (h : Does execOp (handleRequest stream.sent) net.node.shared envs handled (.ret resp) s)
    (hallows : Allows goes handled) (hbridge : ∀ env s e, OnBridge e → goes env s e) :
    ∃ trace, NetRunIn texts goes net { net with
      node := { net.node with shared := s, worker := some ⟨turns, trace, workerLoop n⟩ }
      streams := Function.update net.streams streamId
        (some { stream with written := stream.written ++ [resp.encode] }) } := by
  obtain ⟨_, first, outcome, last, hturn, hevents, hfirst, hlast⟩ :=
    workerTurn_serves streamId hopen hopen' h
  have hloop := Does.bind (f := fun _ => workerLoop n) hturn (.done _ s)
  simp only [List.append_nil] at hloop
  refine ⟨_, NetRunIn.works hworker hloop (fun env s e hmem => ?_) (hfirst _ stream hstream rfl)
    hlast hstream⟩
  rw [List.mem_append, List.mem_append, List.mem_singleton] at hmem
  rcases hmem with hmem | hmem | hmem
  · rcases hevents _ (List.mem_append_left _ hmem) with hmem | he
    · exact hallows env s e hmem
    · exact hbridge env s e he
  · obtain ⟨rfl, -⟩ := Sigma.mk.inj hmem
    exact hbridge env s _ rfl
  · rcases hevents _ (List.mem_append_right _ hmem) with hmem | he
    · exact hallows env s e hmem
    · exact hbridge env s e he

/-- What the host and its process do before there is a worker. -/
theorem NetRun.before_worker {ok : Node → Prop} (net : Network) {N : Node}
    (h : NodeRun ok net.node N) (hworker : N.worker = none) :
    NetRun net { net with node := N } := by
  induction h with
  | refl => exact .refl
  | @tail M N _ hlast ih =>
      have hidle : M.worker = none := by
        cases hlast.2 with
        | spawned hnone => exact hnone
        | working hsome => cases hworker
        | _ => exact hworker
      refine (ih hidle).tail (.acts hlast.2 fun event hevent => ?_)
      change N.workerTrace = M.workerTrace ++ [event] at hevent
      rw [Node.workerTrace, Node.workerTrace, hidle, hworker] at hevent
      cases hevent

end Served

section Open

variable [SerdeJson] [CaseTables] {s : Shared}

/-- An open gifter registers the client's request. -/
theorem handleRequest_open (hserver : s.server = some openCfg) (hclient : rlnModule ∈ s.clients) :
    ∃ envs handled, Does execOp (handleRequest clientPrepared.req.encode) s envs handled
        (.ret (settleResponse clientPrepared.req (.ok clientMembership))) s ∧
      RegisterReturned clientPrepared.req.encode handled (.ok clientMembership) := by
  have hadmitted : Admitted clientPrepared.req.encode clientPrepared.req :=
    ⟨RlnGifterRequest.decode_encode_of_fits _ fits_clientPrepared, by simp [clientPrepared]⟩
  generalize clientPrepared.req = req at hadmitted ⊢
  have hauth : Does execOp (authenticateRequest openCfg req) s [] [] (.ret (.ok none)) s :=
    .done _ _
  have hregister : Does execOp (registerRequest openCfg req) s _ _
      (.ret (.ok clientMembership)) s :=
    register_accepted hclient (moduleResult_registration _ 5)
      (confirm_confirmed hclient (moduleResult_confirmation _ 7) (confirmedLeaf_confirmation 7))
  have hall := handle_does hadmitted hserver hauth (hregister.bind (.done _ _))
  exact ⟨_, _, hall, req, openCfg, [], _, [], none, hadmitted, hserver ▸ rfl, hauth.after,
    hregister.after⟩

end Open

open Platform in
/-- The response to a client that was registered and confirmed at once. -/
theorem fits_clientMembership :
    (settleResponse clientPrepared.req (.ok clientMembership)).encode.length < 2 ^ 64 := by
  have htx : txHashBytes (registration 5) = [] := by
    simp [txHashBytes, registration, Value.object, Value.get_insert]
  rw [clientMembership, htx]
  decide +kernel

open Platform in
/-- A client prepares, is served on a stream of its own, and is told of its membership. -/
theorem NetRunIn.tells {texts : String → Prop} {goes : Env → Shared → Op → Prop} (net : Network)
    (i : Nat) (streamId : UInt64) {turns n : Nat} {before handled : Trace} {envs : List Env}
    {s : Shared} {success : MembershipAllocationSuccess}
    (hworker : net.node.worker = some ⟨turns, before, workerLoop (n + 1)⟩)
    (hhandle : Does execOp (handleRequest clientPrepared.req.encode) net.node.shared envs handled
      (.ret (settleResponse clientPrepared.req (.ok success))) s)
    (hreturned : RegisterReturned clientPrepared.req.encode handled (.ok success))
    (hfits : (settleResponse clientPrepared.req (.ok success)).encode.length < 2 ^ 64)
    (hallows : Allows goes handled) (hbridge : ∀ env s e, OnBridge e → goes env s e)
    (hlibp2p : libp2pModule ∈ net.node.shared.clients) (hlibp2p' : libp2pModule ∈ s.clients)
    (hnew : net.clients i = none) (hfree : net.streams streamId = none)
    (hwaits : net.told i = none) :
    ∃ v trace stream, NetRunIn texts goes net { net with
      node := { net.node with shared := s, worker := some ⟨turns, trace, workerLoop n⟩ }
      clients := Function.update net.clients i (some clientPrepared)
      streams := Function.update net.streams streamId (some stream)
      told := Function.update net.told i (some (.ok v)) } := by
  have hread := (SerdeJson.toText_reads clientArgs).1 rfl
  generalize SerdeJson.toText clientArgs = text at hread
  have hprepared := prepareRequest_clientArgs hread
  generalize settleResponse clientPrepared.req (.ok success) = resp at hhandle hfits
  have hagree := readResponse_agrees hprepared hhandle.after fits_clientPrepared hfits
  obtain ⟨v, hv⟩ := hagree.ok_iff.mpr ⟨_, hreturned⟩
  let reply : Value := .object [("responseB64", .string (b64 resp.encode))]
  have hreply : (reply.get "responseB64").bind Value.asStr = some (b64 resp.encode) := by
    simp [reply, Value.object, Value.get_insert]
  have hresult : readReply clientPrepared reply = .ok v := by
    simp only [readReply, hreply, b64Decode_b64]
    change (RlnGifterResponse.decode resp.encode >>= readResponse clientPrepared) = _
    rw [hagree.delivered.2.1]
    exact hv
  -- the client prepares and opens its stream, and the worker serves it
  let asked : Network := { net with
    clients := Function.update net.clients i (some clientPrepared)
    streams := Function.update net.streams streamId
      (some ⟨clientPrepared.req.encode, some i, []⟩) }
  have hasks : NetRunIn texts goes net asked := by
    refine .head (.around (.prepares i hnew hprepared fits_clientPrepared) rfl rfl)
      (.single (.around ?_ rfl rfl))
    let known : Network := { net with
      clients := Function.update net.clients i (some clientPrepared) }
    refine @NetStep.opens _ _ _ known streamId hfree _ (some i) fun j hj =>
      ⟨clientPrepared, ?_, rfl⟩
    cases hj
    exact Function.update_self ..
  obtain ⟨trace, hserves⟩ := @NetRunIn.serves _ _ _ texts goes asked streamId turns n before
    handled _ resp envs s hworker (Function.update_self ..) hlibp2p hlibp2p' hhandle hallows
    hbridge
  refine ⟨v, trace, ⟨clientPrepared.req.encode, some i, [] ++ [resp.encode]⟩, ?_⟩
  refine (hasks.trans hserves).tail ?_
  let served : Network := { asked with
    node := { asked.node with shared := s, worker := some ⟨turns, trace, workerLoop n⟩ }
    streams := Function.update asked.streams streamId
      (some ⟨clientPrepared.req.encode, some i, [] ++ [resp.encode]⟩) }
  have htells : NetStep served { served with
      told := Function.update served.told i (some (readReply clientPrepared reply)) } :=
    @NetStep.answers _ _ _ served i hwaits _ (Function.update_self ..) streamId _
      (Function.update_self ..) rfl _ (List.mem_append_right _ (List.mem_singleton_self _)) hfits
      _ hreply
  rw [hresult] at htells
  refine .around ?_ rfl rfl
  simpa only [served, asked, Function.update_idem] using htells

open Platform in
/-- A client of an open gifter is told. -/
theorem NetRun.tells (net : Network) (i : Nat) (streamId : UInt64) {turns n : Nat}
    {before : Trace} (hworker : net.node.worker = some ⟨turns, before, workerLoop (n + 1)⟩)
    (hserver : net.node.shared.server = some openCfg)
    (hrln : rlnModule ∈ net.node.shared.clients)
    (hlibp2p : libp2pModule ∈ net.node.shared.clients) (hnew : net.clients i = none)
    (hfree : net.streams streamId = none) (hwaits : net.told i = none) :
    ∃ v trace stream, NetRun net { net with
      node := { net.node with worker := some ⟨turns, trace, workerLoop n⟩ }
      clients := Function.update net.clients i (some clientPrepared)
      streams := Function.update net.streams streamId (some stream)
      told := Function.update net.told i (some (.ok v)) } := by
  obtain ⟨envs, handled, hhandle, hreturned⟩ := handleRequest_open hserver hrln
  obtain ⟨v, trace, stream, hrun⟩ := @NetRunIn.tells (fun _ => True) (fun _ _ _ => True) net i
    streamId _ _ _ _ _ _ _ hworker hhandle hreturned fits_clientMembership
    (fun _ _ _ _ => trivial) (fun _ _ _ _ => trivial) hlibp2p hlibp2p hnew hfree hwaits
  exact ⟨v, trace, stream, hrun.run⟩

/-- A network with an open gifter whose worker has started, `turns` turns before it stops. -/
def openNetwork (files : String → Option String) (turns : Nat) [SerdeJson] [CaseTables]
    [Base64] : Network where
  node := ⟨openShared files, none, true, some ⟨turns, [], workerLoop turns⟩⟩

theorem openShared_clients [CaseTables] (files : String → Option String) :
    libp2pModule ∈ (openShared files).clients ∧ rlnModule ∈ (openShared files).clients := by
  simp [openShared, Shared.ready, Shared.merge, Shared.mounted]

section Told

variable [SerdeJson] [Base64] [CaseTables]

theorem netRun_open (files : String → Option String) (turns : Nat) :
    NetRun (.start files) (openNetwork files turns) := by
  have hopen : NodeRun (fun _ => True) (.new files) ⟨openShared files, none, true, none⟩ :=
    nodeRun_open files (fun _ _ => trivial) (fun _ => trivial) fun _ => trivial
  refine (NetRun.before_worker (.start files) hopen rfl).tail ?_
  refine .acts (.spawned rfl Nat.one_pos turns) fun event hevent => ?_
  cases hevent

/-- What a response says of the bytes that were sent and of how they were handled: it names
the request, and is a success with the membership that was registered or else a failure; and
it denies authentication only where nothing was registered or submitted. -/
structure RespondsTo (sent : List UInt8) (handled : Trace) (resp : RlnGifterResponse) :
    Prop where
  named : (∃ req, RlnGifterRequest.decode sent = .ok req ∧ resp.requestId = req.requestId) ∨
    ∃ e, RlnGifterRequest.decode sent = .error e ∧ resp.requestId = "N/A"
  success_iff : ∀ success, resp.success = some success ↔
    RegisterReturned sent handled (.ok success)
  failure_iff : resp.failure = none ↔ ∃ success, resp.success = some success
  denied : resp.authSuccess = false → ∀ event ∈ handled, ¬ IsRegisterMember event.1

omit [Base64] in
/-- A response of a request that `register` never returned for. -/
theorem respondsTo_failure {sent : List UInt8} {handled : Trace} {requestId msg : String}
    {authSuccess : Bool} (hnot : ¬ ∃ r, RegisterReturned sent handled r)
    (hnone : ∀ event ∈ handled, ¬ IsRegisterMember event.1)
    (hnamed : (∃ req, RlnGifterRequest.decode sent = .ok req ∧ requestId = req.requestId) ∨
      ∃ e, RlnGifterRequest.decode sent = .error e ∧ requestId = "N/A") :
    RespondsTo sent handled (failureResponse requestId authSuccess msg) where
  named := hnamed
  success_iff success := by
    constructor
    · intro h
      cases h
    · exact fun h => absurd ⟨_, h⟩ hnot
  failure_iff := by simp [failureResponse]
  denied _ := hnone

omit [Base64] in
theorem handleRequest_responds {sent : List UInt8} {handled : Trace} {resp : RlnGifterResponse}
    (h : (handleRequest sent).After handled (.ret resp)) : RespondsTo sent handled resp := by
  have hrun := handleRequest_after h
  by_cases hreturned : ∃ r, RegisterReturned sent handled r
  · obtain ⟨r, hreturned⟩ := hreturned
    obtain ⟨req, -, -, -, -, -, hreq, -⟩ := id hreturned
    obtain rfl := hreturned.response hreq.decoded h
    refine ⟨Or.inl ⟨req, hreq.decoded, by cases r <;> rfl⟩, fun success => ?_, ?_, ?_⟩
    · constructor
      · intro hsuccess
        cases r with
        | error e => cases hsuccess
        | ok success' =>
            cases hsuccess
            exact hreturned
      · intro hsuccess
        have hresponse := hsuccess.response hreq.decoded h
        rw [hresponse]
        rfl
    · cases r <;> simp [settleResponse]
    · cases r <;> simp [settleResponse]
  · have hnone := hrun.finished.resolve_right hreturned
    cases hdecode : RlnGifterRequest.decode sent with
    | ok req =>
        obtain ⟨authSuccess, msg, rfl⟩ := handle_failure hreturned hdecode h
        exact respondsTo_failure hreturned hnone (Or.inl ⟨req, hdecode, rfl⟩)
    | error e =>
        rw [handleRequest, hdecode] at h
        obtain ⟨-, hret⟩ := ret_after.mp h
        cases hret
        exact respondsTo_failure hreturned hnone (Or.inr ⟨e, hdecode, rfl⟩)

/-- Whatever the peers send, what is written on a stream is the answer to what was sent on
that same stream: a worker read it there, handled it, and says what came of it. -/
theorem written_responds {files : String → Option String} {net : Network}
    {streamId : UInt64} {stream : Stream} {bytes : List UInt8}
    (hrun : NetRun (.start files) net) (hstream : net.streams streamId = some stream)
    (hwritten : bytes ∈ stream.written) :
    ∃ (k : Nat) (trace handled : Trace) (resp : RlnGifterResponse), bytes = resp.encode ∧
      net.workers[k]? = some trace ∧ handled <:+: trace ∧
      (handleRequest stream.sent).After handled (.ret resp) ∧
      RespondsTo stream.sent handled resp := by
  obtain ⟨k, resp, earlier, handled, before, outcome, after, rfl, hk, hanswering⟩ :=
    (netKept_run hrun).answered hstream hwritten
  exact ⟨k, _, handled, resp, rfl, hk, hanswering.handled_infix _, hanswering.handles,
    handleRequest_responds hanswering.handles⟩

end Told

open Platform in
theorem written_responds_open : ∃ net stream bytes, NetRun (.start fun _ => none) net ∧
    net.streams 5 = some stream ∧ bytes ∈ stream.written ∧
    ∃ (k : Nat) (trace handled : Trace) (resp : RlnGifterResponse), bytes = resp.encode ∧
      net.workers[k]? = some trace ∧ handled <:+: trace ∧
      (handleRequest stream.sent).After handled (.ret resp) ∧
      RespondsTo stream.sent handled resp := by
  obtain ⟨hlibp2p, hrln⟩ := openShared_clients fun _ => none
  obtain ⟨envs, handled, hhandle, -⟩ := handleRequest_open (s := openShared fun _ => none) rfl hrln
  have hopens : NetRun (openNetwork (fun _ => none) 1) _ :=
    .single (.opens 5 rfl clientPrepared.req.encode none nofun)
  obtain ⟨trace, hserves⟩ := @NetRunIn.serves _ _ _ (fun _ => True) (fun _ _ _ => True)
    { openNetwork (fun _ => none) 1 with
      streams := Function.update (fun _ => none) 5 (some ⟨clientPrepared.req.encode, none, []⟩) }
    5 _ 0 _ _ _ _ _ _ rfl rfl hlibp2p hlibp2p hhandle (fun _ _ _ _ => trivial)
    fun _ _ _ _ => trivial
  have hrun := ((netRun_open (fun _ => none) 1).trans hopens).trans hserves.run
  have hmem := List.mem_singleton_self
    (settleResponse clientPrepared.req (.ok clientMembership)).encode
  exact ⟨_, _, _, hrun, rfl, hmem, @written_responds _ _ _ _ _ 5 _ _ hrun rfl hmem⟩

section Told

variable [SerdeJson] [Base64] [CaseTables]

/-- A client that is told of a membership has it: whatever the other peers send, the bridge
loses or repeats and however often the gifter crashes, a worker of the gifter took up this
client's request, registered its commitment under an installed configuration, and found it
confirmed with the leaf that the client is told. -/
theorem told_bought {files : String → Option String} {net : Network} {i : Nat} {v : Value}
    (hrun : NetRun (.start files) net) (htold : net.told i = some (.ok v)) :
    ∃ p k handled, Bought net i v p k handled := by
  have hkept := netKept_run hrun
  obtain ⟨p, k, _, _, _, _, handled, _, _, _, hbought, -⟩ := hkept.heard (hkept.told i v htold)
  exact ⟨p, k, handled, hbought⟩

end Told

open Platform in
theorem told_bought_open : ∃ net v p k handled, NetRun (.start fun _ => none) net ∧
    net.told 0 = some (.ok v) ∧ Bought net 0 v p k handled := by
  obtain ⟨hlibp2p, hrln⟩ := openShared_clients fun _ => none
  obtain ⟨v, trace, stream, htells⟩ := NetRun.tells (openNetwork (fun _ => none) 1) 0 5 rfl rfl
    hrln hlibp2p rfl rfl rfl
  have hrun := (netRun_open (fun _ => none) 1).trans htells
  obtain ⟨p, k, handled, hbought⟩ := told_bought (i := 0) (v := v) hrun rfl
  exact ⟨_, v, p, k, handled, hrun, rfl, hbought⟩

section Told

variable [SerdeJson] [Base64] [CaseTables]

/-- What two clients heard of one process was granted on different keys. -/
theorem NetKept.apart {net : Network} (h : NetKept net) {i j : Nat} {v v' : Value} (hne : i ≠ j)
    (hheard : Heard net i v) (hheard' : Heard net j v') :
    ∃ p k handled p' k' handled', Bought net i v p k handled ∧ Bought net j v' p' k' handled' ∧
      (k = k' → ∀ key, Carries p.req.encode handled key →
        ¬ Carries p'.req.encode handled' key) := by
  obtain ⟨p, k, streamId, stream, resp, earlier, handled, before, outcome, after, hbought,
    hstream, hown, hk, hanswering⟩ := h.heard hheard
  obtain ⟨p', k', streamId', stream', resp', earlier', handled', before', outcome', after',
    hbought', hstream', hown', hk', hanswering'⟩ := h.heard hheard'
  refine ⟨p, k, handled, p', k', handled', hbought, hbought', ?_⟩
  rintro rfl key hcarries hcarries'
  have hkeptTrace := h.workers _ (List.mem_of_getElem? hk)
  have hcalls : writeCall streamId resp.encode ≠ writeCall streamId' resp'.encode := by
    intro heq
    obtain ⟨rfl, -⟩ := writeCall_inj heq
    cases hstream.symm.trans hstream'
    exact hne (Option.some.inj (hown.symm.trans hown'))
  have htrace : before ++ ⟨writeCall streamId resp.encode, outcome⟩ :: after =
      before' ++ ⟨writeCall streamId' resp'.encode, outcome'⟩ :: after' :=
    Option.some.inj (hk.symm.trans hk')
  rcases List.append_eq_append_iff.mp htrace with ⟨middle, rfl, hcut⟩ | ⟨middle, rfl, hcut⟩
  · cases middle with
    | nil => exact hcalls (Sigma.mk.inj (List.cons.inj hcut).1).1
    | cons event between =>
        obtain ⟨rfl, rfl⟩ := List.cons.inj hcut
        exact hkeptTrace.granted_once rfl hanswering hanswering' hbought.granted
          hbought'.granted hcarries hcarries'
  · cases middle with
    | nil => exact hcalls (Sigma.mk.inj (List.cons.inj hcut).1).1.symm
    | cons event between =>
        obtain ⟨rfl, rfl⟩ := List.cons.inj hcut
        exact hkeptTrace.granted_once (List.append_assoc _ _ _) hanswering' hanswering
          hbought'.granted hbought.granted hcarries' hcarries

/-- The gifts of one process are bought with different credentials, whoever is told of them:
of two clients that are told of a membership by the same process, no verdict gave both the
same key. -/
theorem told_apart {files : String → Option String} {net : Network} {i j : Nat} {v v' : Value}
    (hrun : NetRun (.start files) net) (hne : i ≠ j) (htold : net.told i = some (.ok v))
    (htold' : net.told j = some (.ok v')) :
    ∃ p k handled p' k' handled', Bought net i v p k handled ∧ Bought net j v' p' k' handled' ∧
      (k = k' → ∀ key, Carries p.req.encode handled key →
        ¬ Carries p'.req.encode handled' key) := by
  have hkept := netKept_run hrun
  exact hkept.apart hne (hkept.told i v htold) (hkept.told j v' htold')

end Told

open Platform in
theorem told_apart_open : ∃ net v v', NetRun (.start fun _ => none) net ∧
    net.told 0 = some (.ok v) ∧ net.told 1 = some (.ok v') ∧
    ∃ p k handled p' k' handled', Bought net 0 v p k handled ∧
      Bought net 1 v' p' k' handled' ∧
      (k = k' → ∀ key, Carries p.req.encode handled key →
        ¬ Carries p'.req.encode handled' key) := by
  obtain ⟨hlibp2p, hrln⟩ := openShared_clients fun _ => none
  obtain ⟨v, trace, stream, htells⟩ := NetRun.tells (openNetwork (fun _ => none) 2) 0 5 rfl rfl
    hrln hlibp2p rfl rfl rfl
  obtain ⟨v', trace', stream', htells'⟩ := NetRun.tells { openNetwork (fun _ => none) 2 with
    node := { (openNetwork (fun _ => none) 2).node with
      worker := some ⟨2, trace, workerLoop 1⟩ }
    clients := Function.update (fun _ => none) 0 (some clientPrepared)
    streams := Function.update (fun _ => none) 5 (some stream)
    told := Function.update (fun _ => none) 0 (some (.ok v)) } 1 6 rfl rfl hrln hlibp2p
    rfl rfl rfl
  have hrun := ((netRun_open (fun _ => none) 2).trans htells).trans htells'
  exact ⟨_, v, v', hrun, rfl, rfl, told_apart hrun Nat.zero_ne_one rfl rfl⟩

end RlnGifter
