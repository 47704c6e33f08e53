/-
The clients the worker needs.  Only the owner thread can open clients, so whatever
the worker may ask for has to be open before: the bridge and the verifiers are,
since `serve` opens or uses them, while the registry's client is only there if
`on_context_ready` or some earlier call managed to open it.
-/
import RlnGifter.Interference
import RlnGifter.Node

namespace RlnGifter

open Program

/-- The modules a configuration names. -/
def ServerCfg.modules (cfg : ServerCfg) : List String :=
  cfg.authVerifiers.map fun entry => entry.2.1

/-- The modules of the installed configuration have clients. -/
def VerifiersOpen (s : Shared) : Prop :=
  ∀ cfg, s.server = some cfg → ∀ target ∈ cfg.modules, target ∈ s.clients

/-- Everything the worker may call under the installed configuration has a client. -/
structure TargetsOpen (s : Shared) : Prop where
  bridge : libp2pModule ∈ s.clients
  registry : rlnModule ∈ s.clients
  verifiers : VerifiersOpen s

/-- What a request does, looking only for clients in `reach`. -/
def Reaching (reach : String → Prop) (e : Op) : Prop :=
  Requesting e ∧ ∀ target, e = .findClient target → reach target

theorem Reaching.mono {reach reach' : String → Prop} (h : ∀ target, reach target → reach' target)
    (e : Op) (he : Reaching reach e) : Reaching reach' e :=
  ⟨he.1, fun target heq => h target (he.2 target heq)⟩

section Reaching

theorem clientPtr_reaching (target : String) :
    (clientPtr .worker target).Only (Reaching (· = target)) := by
  have hlook : Reaching (· = target) (.findClient target) :=
    ⟨trivial, fun target' heq => (Op.findClient.inj heq).symm⟩
  have hread : Reaching (· = target) .readOwner := ⟨trivial, fun target' heq => by cases heq⟩
  rw [clientPtr]
  simp only [perform_bind, onOwnerThread]
  refine ⟨hlook, fun found => ?_⟩
  cases found
  · simpa using ⟨hread, only_perform hlook⟩
  · simpa using only_perform hlook

theorem settle_reaching {reach : String → Prop} (cfg : ServerCfg)
    (req : RlnGifterRequest) (key : Option String)
    (r : Except RegisterError MembershipAllocationSuccess) :
    (settle cfg req key r).Only (Reaching reach) := by
  rw [settle_eq]
  cases hop : settleOp cfg key r with
  | none => trivial
  | some e =>
      refine ⟨?_, fun _ => trivial⟩
      obtain ⟨k, -, ⟨rfl, -⟩ | ⟨rfl, -⟩⟩ := settleOp_cases hop
      · exact ⟨trivial, fun target heq => by cases heq⟩
      · exact ⟨trivial, fun target heq => by cases heq⟩

variable [SerdeJson]

theorem callJson_reaching (target method : String) (args : Value) (timeoutMs : Int) :
    (callJson .worker target method args timeoutMs).Only (Reaching (· = target)) := by
  rw [callJson]
  apply only_bind (clientPtr_reaching target)
  intro ptr
  split
  · split
    · trivial
    · refine ⟨⟨trivial, fun target' heq => by cases heq⟩, fun recorded => ?_⟩
      simp only [reduceCtorEq, decide_false, Bool.and_false, pure_eq_ret, perform_bind]
      exact ⟨⟨trivial, fun target' heq => by cases heq⟩, fun _ => trivial⟩
  · trivial

theorem callModuleJson_reaching (target method : String) (args : Value) (timeoutMs : Int) :
    (callModuleJson .worker target method args timeoutMs).Only (Reaching (· = target)) :=
  only_bind (callJson_reaching target method args timeoutMs) fun _ => only_ret _

theorem callLibp2p_reaching (method : String) (args : Value) (timeoutMs : Int) :
    (callLibp2p .worker method args timeoutMs).Only (Reaching (· = libp2pModule)) :=
  only_bind (callJson_reaching libp2pModule method args timeoutMs) fun _ => only_ret _

theorem register_reaching (cfg : ServerCfg) (idc : List UInt8) (rate : UInt64) :
    (register cfg idc rate).Only (Reaching (· = rlnModule)) := by
  rw [register]
  apply only_bind (callModuleJson_reaching _ _ _ _)
  intro result
  split
  · trivial
  · exact confirm_only (callModuleJson_reaching _ _ _ _)
      ⟨trivial, fun target heq => by cases heq⟩ _ _

variable [CaseTables]

theorem judge_reaching (reach : String → Prop) (req : RlnGifterRequest)
    (authType verifier : String) (reply : Value) :
    (judge req authType verifier reply).Only (Reaching reach) := by
  rw [judge]
  split
  · trivial
  · split
    · trivial
    · rename_i verdict _ _
      cases verdict.nullifier with
      | none => trivial
      | some nul =>
          rw [reserveVerdict]
          cases wellFormed (normalize nul) with
          | false => exact only_ret _
          | true =>
              simp only [Bool.not_true, Bool.false_eq_true, ↓reduceIte, perform_bind]
              refine ⟨⟨trivial, fun target heq => by cases heq⟩, fun used => ?_⟩
              cases used
              · exact only_ret _
              · exact only_ret _

theorem authenticate_reaching (cfg : ServerCfg) (req : RlnGifterRequest) (authType : String)
    (rate : UInt64) :
    (authenticate cfg req authType rate).Only (Reaching (· ∈ cfg.modules)) := by
  rw [authenticate]
  split
  · trivial
  · cases hlookup : lookupField authType cfg.authVerifiers with
    | none => trivial
    | some entry =>
        obtain ⟨verifier, verifierConfig⟩ := entry
        have hmem : verifier ∈ cfg.modules :=
          List.mem_map.mpr ⟨_, lookupField_mem hlookup, rfl⟩
        simp only
        split
        · exact only_ret _
        · apply only_bind
          · refine only_mono (Reaching.mono ?_) (callModuleJson_reaching _ _ _ _)
            rintro target rfl
            exact hmem
          · intro result
            split
            · exact only_ret _
            · exact judge_reaching _ _ _ _ _

end Reaching

/-- What `serve` and `init` set is as it was, files and the store apart. -/
structure SameSetup (s s' : Shared) : Prop where
  server : s'.server = s.server
  serving : s'.serving = s.serving
  clients : s'.clients = s.clients
  owner : s'.owner = s.owner
  workers : s'.workers = s.workers

theorem SameSetup.refl (s : Shared) : SameSetup s s :=
  ⟨rfl, rfl, rfl, rfl, rfl⟩

theorem SameSetup.trans {s s' s'' : Shared} (h : SameSetup s s') (h' : SameSetup s' s'') :
    SameSetup s s'' :=
  ⟨h'.server.trans h.server, h'.serving.trans h.serving, h'.clients.trans h.clients,
    h'.owner.trans h.owner, h'.workers.trans h.workers⟩

theorem SameSetup.verifiersOpen {s s' : Shared} (h : SameSetup s s') (hs : VerifiersOpen s) :
    VerifiersOpen s' := by
  rw [VerifiersOpen, h.server, h.clients]
  exact hs

theorem SameSetup.targetsOpen {s s' : Shared} (h : SameSetup s s') (hs : TargetsOpen s) :
    TargetsOpen s' :=
  ⟨h.clients ▸ hs.bridge, h.clients ▸ hs.registry, h.verifiersOpen hs.verifiers⟩

section Worker

/-- What the host's calls may change under the worker. -/
structure WorkerRely (s s' : Shared) : Prop where
  clients : s.clients ⊆ s'.clients
  opened : TargetsOpen s → TargetsOpen s'

theorem WorkerRely.refl (s : Shared) : WorkerRely s s :=
  ⟨Finset.Subset.refl _, id⟩

theorem WorkerRely.trans {s s' s'' : Shared} (h : WorkerRely s s') (h' : WorkerRely s' s'') :
    WorkerRely s s'' :=
  ⟨h.clients.trans h'.clients, h'.opened ∘ h.opened⟩

/-- The worker looks only for clients that are there. -/
def WorkerNeed (s : Shared) : Op → Prop :=
  Reaching (· ∈ s.clients)

variable [CaseTables]

theorem sameSetup_requesting {e : Op} (h : Requesting e) (env : Env) (s : Shared) :
    SameSetup s (execOp env s e).2 := by
  cases e with
  | append path nul =>
      rw [execOp]
      split <;> exact ⟨rfl, rfl, rfl, rfl, rfl⟩
  | reserve key => exact ⟨rfl, rfl, rfl, rfl, rfl⟩
  | release key => exact ⟨rfl, rfl, rfl, rfl, rfl⟩
  | lockServer | findClient | readOwner | invokeAsync | pastDeadline => exact .refl s
  | _ => cases h

/-- Among the host's calls the program finds every client it looks for, and leaves
everything open. -/
abbrev WorkerSafe {α : Type} (p : Prog α) (s : Shared) : Prop :=
  p.Safe execOp WorkerRely WorkerNeed (fun _ => TargetsOpen) s

theorem workerSafe_reaching {α : Type} {p : Prog α} {reach : String → Prop} {s : Shared}
    (hp : p.Only (Reaching reach)) (hreach : ∀ target, reach target → target ∈ s.clients)
    (hs : TargetsOpen s) : WorkerSafe p s := by
  refine Safe.weaken (safe_of_only (I := fun s => TargetsOpen s ∧
    ∀ target, reach target → target ∈ s.clients) hp ?_ ?_ ?_ ⟨hs, hreach⟩)
    fun _ _ h => h.1
  · intro s s' h hrely
    exact ⟨hrely.opened h.1, fun target htarget => hrely.clients (h.2 target htarget)⟩
  · intro s e he h
    exact he.mono h.2 e
  · intro env s e he h
    have hsame := sameSetup_requesting he.1 env s
    refine ⟨hsame.targetsOpen h.1, ?_⟩
    rw [hsame.clients]
    exact h.2

theorem WorkerSafe.bind {α β : Type} {p : Prog α} {f : α → Prog β} {s : Shared}
    (hp : WorkerSafe p s) (hf : ∀ value s, TargetsOpen s → WorkerSafe (f value) s) :
    WorkerSafe (p >>= f) s :=
  Safe.bind WorkerRely.refl hp hf

theorem workerSafe_ret {α : Type} (value : α) {s : Shared} (hs : TargetsOpen s) :
    WorkerSafe (.ret value) s :=
  fun _ hrely => hrely.opened hs

variable [SerdeJson]

theorem handleRequest_safe (buf : List UInt8) {s : Shared} (hs : TargetsOpen s) :
    WorkerSafe (handleRequest buf) s := by
  rw [handleRequest]
  split
  · exact workerSafe_ret _ hs
  · split
    · exact workerSafe_ret _ hs
    · rw [perform_bind]
      intro s' hrely
      have hs' := hrely.opened hs
      refine ⟨⟨trivial, fun target heq => by cases heq⟩, fun env => ?_⟩
      dsimp only [execOp]
      cases hserver : s'.server with
      | none => exact workerSafe_ret _ hs'
      | some cfg =>
          refine WorkerSafe.bind (workerSafe_reaching (authenticate_reaching cfg _ _ _)
            (hs'.verifiers cfg hserver) hs') ?_
          rintro (response | key) s hs
          · exact workerSafe_ret _ hs
          · refine WorkerSafe.bind (workerSafe_reaching (register_reaching cfg _ _) ?_ hs) ?_
            · rintro target rfl
              exact hs.registry
            · intro registered s hs
              have hsettle (req) : (settle cfg req key registered).Only
                  (Reaching fun _ => False) := settle_reaching cfg req key registered
              exact workerSafe_reaching (hsettle _) (fun _ => False.elim) hs

theorem callLibp2p_safe (method : String) (args : Value) (timeoutMs : Int) {s : Shared}
    (hs : TargetsOpen s) : WorkerSafe (callLibp2p .worker method args timeoutMs) s := by
  refine workerSafe_reaching (callLibp2p_reaching method args timeoutMs) ?_ hs
  rintro target rfl
  exact hs.bridge

variable [Base64]

theorem handleStream_safe (streamId : UInt64) {s : Shared} (hs : TargetsOpen s) :
    WorkerSafe (handleStream streamId) s := by
  rw [handleStream]
  refine .bind (callLibp2p_safe _ _ _ hs) ?_
  rintro (e | read) s hs
  · exact workerSafe_ret _ hs
  · simp only
    split
    · exact workerSafe_ret _ hs
    · refine .bind (handleRequest_safe _ hs) fun resp s hs => ?_
      refine .bind (callLibp2p_safe _ _ _ hs) fun _ s hs => ?_
      exact .bind (callLibp2p_safe _ _ _ hs) fun _ s hs => workerSafe_ret _ hs

theorem workerLoop_safe (turns : Nat) {s : Shared} (hs : TargetsOpen s) :
    WorkerSafe (workerLoop turns) s := by
  induction turns generalizing s with
  | zero => exact workerSafe_ret _ hs
  | succ turns ih =>
      have hturn : WorkerSafe workerTurn s := by
        refine .bind (callLibp2p_safe _ _ _ hs) fun accept s hs => ?_
        split
        · exact workerSafe_ret _ hs
        · exact .bind (handleStream_safe _ hs) fun _ s hs => workerSafe_ret _ hs
      exact .bind hturn fun _ s hs => ih hs

end Worker

section Host

/-- The bridge has a client while the module is marked as serving. -/
def BridgeServes (s : Shared) : Prop :=
  s.serving = true → libp2pModule ∈ s.clients

/-- What the host's calls need: the modules of a configuration are open before it is
stored, and the bridge before the worker is spawned. -/
def HostNeed (s : Shared) : Op → Prop
  | .storeServer cfg => ∀ target ∈ cfg.modules, target ∈ s.clients
  | .spawnWorker => libp2pModule ∈ s.clients ∧ s.server ≠ none
  | _ => True

/-- Opening clients keeps this, and it depends on nothing the worker changes. -/
structure Kept (I : Shared → Prop) : Prop where
  same : ∀ s s', SameSetup s s' → I s → I s'
  opening : ∀ s target, I s → I { s with clients := insert target s.clients }

theorem Kept.and {I J : Shared → Prop} (hI : Kept I) (hJ : Kept J) :
    Kept fun s => I s ∧ J s :=
  ⟨fun s s' hsame h => ⟨hI.same s s' hsame h.1, hJ.same s s' hsame h.2⟩,
    fun s target h => ⟨hI.opening s target h.1, hJ.opening s target h.2⟩⟩

theorem kept_mem_clients (target : String) : Kept fun s => target ∈ s.clients :=
  ⟨fun _ _ hsame h => hsame.clients ▸ h, fun _ _ h => Finset.mem_insert_of_mem h⟩

theorem kept_bridgeServes : Kept BridgeServes :=
  ⟨fun _ _ hsame h hserving => hsame.clients ▸ h (hsame.serving ▸ hserving),
    fun _ _ h hserving => Finset.mem_insert_of_mem (h hserving)⟩

theorem kept_server : Kept fun s => s.server ≠ none :=
  ⟨fun _ _ hsame h => hsame.server ▸ h, fun _ _ h => h⟩

theorem Calling.hostNeed {e : Op} (h : Calling e) (s : Shared) : HostNeed s e := by
  cases e <;> trivial

/-- What a `serve` leaves: the bridge serves, and when it succeeded it is open under a
configuration. -/
def ServeLeaves (r : Except String Value) (s : Shared) : Prop :=
  BridgeServes s ∧ ∀ v, r = .ok v → libp2pModule ∈ s.clients ∧ s.server ≠ none

theorem ServeLeaves.of_error {e : String} {s : Shared} (h : BridgeServes s) :
    ServeLeaves (.error e) s :=
  ⟨h, fun v hv => by cases hv⟩

variable [CaseTables]

/-- Beside the worker the program meets its needs and ends with `post`. -/
abbrev HostSafe {α : Type} (p : Prog α) (post : α → Shared → Prop) (s : Shared) : Prop :=
  p.Safe execOp SameSetup HostNeed post s

theorem Kept.execOp_calling {I : Shared → Prop} (hI : Kept I) {e : Op} (h : Calling e)
    (env : Env) {s : Shared} (hs : I s) : I (execOp env s e).2 := by
  cases e with
  | createClient target =>
      rw [execOp]
      split
      · exact hI.opening s target hs
      · exact hs
  | findClient | readOwner | invoke | invokeAsync => exact hs
  | _ => cases h

theorem hostSafe_calling {α : Type} {p : Prog α} {I : Shared → Prop} {s : Shared}
    (hp : p.Only Calling) (hI : Kept I) (hs : I s) : HostSafe p (fun _ => I) s :=
  safe_of_only hp (fun s s' h hsame => hI.same s s' hsame h) (fun s _ he _ => he.hostNeed s)
    (fun env _ _ he h => hI.execOp_calling he env h) hs

theorem HostSafe.bind {α β : Type} {p : Prog α} {f : α → Prog β} {mid : α → Shared → Prop}
    {post : β → Shared → Prop} {s : Shared} (hp : HostSafe p mid s)
    (hf : ∀ value s, mid value s → HostSafe (f value) post s) :
    HostSafe (p >>= f) post s :=
  Safe.bind SameSetup.refl hp hf

theorem findClient_host {I : Shared → Prop} (hI : Kept I) (target : String) {s : Shared}
    (hs : I s) : HostSafe (perform (.findClient target))
      (fun found s => I s ∧ (found = true → target ∈ s.clients)) s := by
  intro s' hsame
  refine ⟨trivial, fun env s'' hsame' => ?_⟩
  refine ⟨hI.same _ _ (hsame.trans hsame') hs, fun hfound => ?_⟩
  rw [hsame'.clients]
  exact of_decide_eq_true hfound

theorem clientPtr_host {I : Shared → Prop} (hI : Kept I) (who : Caller) (target : String)
    {s : Shared} (hs : I s) : HostSafe (clientPtr who target)
      (fun found s => I s ∧ (found = true → target ∈ s.clients)) s := by
  rw [clientPtr]
  refine .bind (findClient_host hI target hs) fun found s hs => ?_
  cases found with
  | true => exact findClient_host hI target hs.1
  | false =>
      refine .bind (hostSafe_calling (onOwnerThread_only who) hI hs.1) fun owner s hs => ?_
      cases owner with
      | false => exact findClient_host hI target hs
      | true =>
          refine .bind (hostSafe_calling (createClient_only target) hI hs) fun _ s hs => ?_
          exact findClient_host hI target hs

theorem createClient_host {I : Shared → Prop} (hI : Kept I) (target : String) {s : Shared}
    (hs : I s) : HostSafe (createClient target)
      (fun created s => I s ∧ (created = true → target ∈ s.clients)) s := by
  rw [createClient]
  split
  · intro s' hsame
    exact ⟨hI.same s s' hsame hs, fun hcreated => by cases hcreated⟩
  · intro s' hsame
    refine ⟨trivial, fun env s'' hsame' => ?_⟩
    have hopening : Calling (.createClient target) := trivial
    have hs' := hI.execOp_calling hopening env (hI.same s s' hsame hs)
    refine ⟨hI.same _ _ hsame' hs', fun hcreated => ?_⟩
    rw [hsame'.clients]
    cases hopened : env.created with
    | true => simp [execOp, hopened]
    | false => simp [execOp, hopened] at hcreated

theorem ensureClient_host {I : Shared → Prop} (hI : Kept I) (who : Caller) (target : String)
    {s : Shared} (hs : I s) : HostSafe (ensureClient who target)
      (fun r s => I s ∧ (r = .ok () → target ∈ s.clients)) s := by
  have hrefused : ∀ (msg : String) {s : Shared}, I s →
      HostSafe (.ret (.error msg) : Prog (Except String Unit))
        (fun r s => I s ∧ (r = .ok () → target ∈ s.clients)) s := by
    intro msg s hs s' hsame
    exact ⟨hI.same s s' hsame hs, fun h => by cases h⟩
  rw [ensureClient]
  refine .bind (findClient_host hI target hs) fun found s hs => ?_
  cases found with
  | true =>
      intro s' hsame
      exact ⟨hI.same s s' hsame hs.1, fun _ => hsame.clients ▸ hs.2 rfl⟩
  | false =>
      refine .bind (hostSafe_calling (onOwnerThread_only who) hI hs.1) fun owner s hs => ?_
      cases owner with
      | false => exact hrefused _ hs
      | true =>
          refine .bind (createClient_host hI target hs) fun created s hs => ?_
          cases created with
          | false => exact hrefused _ hs.1
          | true =>
              intro s' hsame
              exact ⟨hI.same s s' hsame hs.1, fun _ => hsame.clients ▸ hs.2 rfl⟩

/-- A verifier map whose modules are open. -/
def MapOpen (verifiers : List (String × String × Option Value)) (s : Shared) : Prop :=
  ∀ entry ∈ verifiers, entry.2.1 ∈ s.clients

theorem openVerifiers_host {I : Shared → Prop} (hI : Kept I) (entries : List (String × Value))
    {s : Shared} (hs : I s) : HostSafe (openVerifiers entries)
      (fun r s => I s ∧ ∀ verifiers, r = .ok verifiers → MapOpen verifiers s) s := by
  have hrefused : ∀ {I : Shared → Prop}, Kept I → ∀ (msg : String) {s : Shared}, I s →
      HostSafe (.ret (.error msg) : Prog (Except String (List (String × String × Option Value))))
        (fun r s => I s ∧ ∀ verifiers, r = .ok verifiers → MapOpen verifiers s) s := by
    intro I hI msg s hs s' hsame
    exact ⟨hI.same s s' hsame hs, fun verifiers h => by cases h⟩
  induction entries generalizing I s with
  | nil =>
      intro s' hsame
      refine ⟨hI.same s s' hsame hs, ?_⟩
      rintro verifiers h entry hentry
      cases h
      cases hentry
  | cons entry rest ih =>
      obtain ⟨atype, v⟩ := entry
      rw [openVerifiers]
      split
      · exact hrefused hI _ hs
      · refine .bind (ensureClient_host hI .owner _ hs) fun opened s hs => ?_
        split
        · exact hrefused hI _ hs.1
        · have hI' := hI.and (kept_mem_clients (((v.get "module").bind Value.asStr).getD ""))
          refine .bind (ih hI' ⟨hs.1, hs.2 rfl⟩) fun result s hs => ?_
          cases result with
          | error e => exact hrefused hI _ hs.1.1
          | ok verifiers =>
              intro s' hsame
              refine ⟨hI.same s s' hsame hs.1.1, ?_⟩
              rintro _ h entry hentry
              cases h
              rw [hsame.clients]
              rcases List.mem_cons.mp hentry with rfl | hentry
              · exact hs.1.2
              · exact hs.2 verifiers rfl entry hentry

theorem readVerifiers_host {I : Shared → Prop} (hI : Kept I) (a : Value) {s : Shared}
    (hs : I s) : HostSafe (readVerifiers a)
      (fun r s => I s ∧ ∀ verifiers, r = .ok verifiers → MapOpen verifiers s) s := by
  have hnone : HostSafe (.ret (.ok []) : Prog (Except String
      (List (String × String × Option Value))))
      (fun r s => I s ∧ ∀ verifiers, r = .ok verifiers → MapOpen verifiers s) s := by
    intro s' hsame
    refine ⟨hI.same s s' hsame hs, ?_⟩
    rintro verifiers h entry hentry
    cases h
    cases hentry
  rw [readVerifiers]
  split
  · exact hnone
  · exact hnone
  · exact openVerifiers_host hI _ hs
  · intro s' hsame
    exact ⟨hI.same s s' hsame hs, fun verifiers h => by cases h⟩

variable [SerdeJson]

theorem callJson_host {I : Shared → Prop} (hI : Kept I) (who : Caller)
    (target method : String) (args : Value) (timeoutMs : Int) {s : Shared} (hs : I s) :
    HostSafe (callJson who target method args timeoutMs)
      (fun r s => I s ∧ ∀ v, r = .ok v → target ∈ s.clients) s := by
  rw [callJson]
  refine .bind (clientPtr_host hI who target hs) fun ptr s hs => ?_
  cases ptr with
  | false =>
      intro s' hsame
      exact ⟨hI.same s s' hsame hs.1, fun v h => by cases h⟩
  | true =>
      have hI' := hI.and (kept_mem_clients target)
      refine Safe.weaken (hostSafe_calling ?_ hI' ⟨hs.1, hs.2 rfl⟩)
        fun _ _ h => ⟨h.1, fun _ _ => h.2⟩
      simp only [↓reduceIte]
      split
      · exact only_ret _
      · refine only_bind (onOwnerThread_only who) fun owner => ?_
        split
        · exact ⟨trivial, fun _ => only_ret _⟩
        · exact ⟨trivial, fun _ => only_ret _⟩

theorem callLibp2p_host {I : Shared → Prop} (hI : Kept I) (who : Caller) (method : String)
    (args : Value) (timeoutMs : Int) {s : Shared} (hs : I s) :
    HostSafe (callLibp2p who method args timeoutMs)
      (fun r s => I s ∧ ∀ v, r = .ok v → libp2pModule ∈ s.clients) s := by
  rw [callLibp2p]
  refine .bind (callJson_host hI who _ method args timeoutMs hs) fun r s hs s' hsame => ?_
  refine ⟨hI.same s s' hsame hs.1, fun v hv => ?_⟩
  cases r with
  | error e => cases hv
  | ok reply => exact hsame.clients ▸ hs.2 reply rfl

theorem mount_host {s : Shared} (hserves : BridgeServes s) (hserver : s.server ≠ none) :
    HostSafe mount ServeLeaves s := by
  rw [mount]
  intro s₁ hsame
  have hserves₁ := kept_bridgeServes.same s s₁ hsame hserves
  have hserver₁ := kept_server.same s s₁ hsame hserver
  refine ⟨trivial, fun env => ?_⟩
  change HostSafe (if s₁.serving = true then _ else _) _ { s₁ with serving := true }
  split
  · -- a worker is there already
    rename_i hserving
    intro s₂ hsame₂
    have hbridge : libp2pModule ∈ s₂.clients := hsame₂.clients ▸ hserves₁ hserving
    exact ⟨fun _ => hbridge, fun _ _ => ⟨hbridge, hsame₂.server ▸ hserver₁⟩⟩
  · refine .bind (callLibp2p_host kept_server _ _ _ _ hserver₁) fun mounted s₂ hs₂ => ?_
    cases mounted with
    | error e =>
        intro s₃ hsame₃
        refine ⟨trivial, fun env s₄ hsame₄ => ?_⟩
        refine .of_error fun hserving => ?_
        rw [hsame₄.serving] at hserving
        cases hserving
    | ok v =>
        have hbridge := hs₂.2 v rfl
        intro s₃ hsame₃
        refine ⟨⟨hsame₃.clients ▸ hbridge, hsame₃.server ▸ hs₂.1⟩, fun env s₄ hsame₄ => ?_⟩
        have hbridge₄ : libp2pModule ∈ s₄.clients :=
          hsame₄.clients ▸ hsame₃.clients ▸ hbridge
        have hserver₄ : s₄.server ≠ none := hsame₄.server ▸ hsame₃.server ▸ hs₂.1
        exact ⟨fun _ => hbridge₄, fun _ _ => ⟨hbridge₄, hserver₄⟩⟩

theorem serve_host (argsJson : String) {s : Shared} (hserves : BridgeServes s) :
    HostSafe (serve argsJson) ServeLeaves s := by
  have hrefused : ∀ (msg : String) {s : Shared}, BridgeServes s →
      HostSafe (.ret (.error msg)) ServeLeaves s := by
    intro msg s hs s' hsame
    exact .of_error (kept_bridgeServes.same s s' hsame hs)
  rw [serve]
  split
  · exact hrefused _ hserves
  · split
    · exact hrefused _ hserves
    · split
      · exact hrefused _ hserves
      · refine .bind (readVerifiers_host kept_bridgeServes _ hserves) fun result s hs => ?_
        split
        · exact hrefused _ hs.1
        · rename_i verifiers
          intro s₁ hsame₁
          refine ⟨trivial, fun env s₂ hsame₂ => ?_⟩
          have hmap : MapOpen verifiers s₂ := by
            intro entry hentry
            rw [hsame₂.clients]
            exact hsame₁.clients ▸ hs.2 verifiers rfl entry hentry
          have hserves₂ := kept_bridgeServes.same _ s₂ hsame₂
            (kept_bridgeServes.same s s₁ hsame₁ hs.1)
          refine ⟨?_, fun env => mount_host hserves₂ (by simp [execOp])⟩
          intro target htarget
          obtain ⟨entry, hentry, rfl⟩ := List.mem_map.mp htarget
          exact hmap entry hentry

/-- What a call of the host leaves. -/
def HostLeaves (result : HostResult) (s : Shared) : Prop :=
  BridgeServes s ∧ (result.serves = true → libp2pModule ∈ s.clients ∧ s.server ≠ none)

omit [CaseTables] in
theorem callModuleJson_only (who : Caller) (target method : String) (args : Value)
    (timeoutMs : Int) : (callModuleJson who target method args timeoutMs).Only Calling :=
  only_bind (callJson_only who target method args timeoutMs) fun _ => only_ret _

variable [Base64]

/-- The client calls other modules and does nothing else. -/
theorem request_only (who : Caller) (argsJson : String) :
    (request who argsJson).Only Calling := by
  have hproduce : ∀ authProvider prodReq,
      (producePayload who authProvider prodReq).Only Calling := by
    intro authProvider prodReq
    rw [producePayload]
    split
    · exact only_ret _
    · refine only_bind (callModuleJson_only _ _ _ _ _) fun reply => ?_
      split
      · exact only_ret _
      · split <;> exact only_ret _
  have hpayload : ∀ a idc, (authPayload who a idc).Only Calling := by
    intro a idc
    rw [authPayload]
    split
    · exact only_ret _
    · split
      · split <;> exact only_ret _
      · split
        · exact only_ret _
        · split
          · exact hproduce _ _
          · exact only_ret _
  have hprepare : (prepareRequest who argsJson).Only Calling := by
    rw [prepareRequest]
    split
    · exact only_ret _
    · split
      · exact only_ret _
      · split
        · exact only_ret _
        · simp only
          split
          · exact only_ret _
          · split
            · exact only_ret _
            · refine only_bind (hpayload _ _) fun payload => ?_
              split <;> exact only_ret _
  refine only_bind hprepare fun prepared => ?_
  split
  · exact only_ret _
  · refine only_bind (callLibp2p_only _ _ _ _) fun reply => ?_
    split <;> exact only_ret _

theorem hostBody_safe (call : HostCall) {s : Shared} (hserves : BridgeServes s) :
    HostSafe (hostBody call) HostLeaves s := by
  have hquiet : ∀ {result : HostResult} {s : Shared}, result.serves = false →
      BridgeServes s → HostSafe (.ret result) HostLeaves s := by
    intro result s hresult hs s' hsame
    refine ⟨kept_bridgeServes.same s s' hsame hs, fun h => ?_⟩
    rw [hresult] at h
    cases h
  cases call with
  | contextReady =>
      refine .bind (safe_of_only (I := BridgeServes) (init_only _) ?_ ?_ ?_ hserves)
        fun _ s hs => hquiet rfl hs
      · exact fun s s' hs hsame => kept_bridgeServes.same s s' hsame hs
      · rintro s e (rfl | he) _
        · trivial
        · exact he.hostNeed s
      · rintro env s e (rfl | he) hs
        · exact hs
        · exact kept_bridgeServes.execOp_calling he env hs
  | serve argsJson =>
      refine .bind (serve_host argsJson hserves) fun r s hs s' hsame => ?_
      refine ⟨kept_bridgeServes.same s s' hsame hs.1, fun hserved => ?_⟩
      cases r with
      | error e => cases hserved
      | ok v =>
          obtain ⟨hbridge, hserver⟩ := hs.2 v rfl
          exact ⟨hsame.clients ▸ hbridge, hsame.server ▸ hserver⟩
  | request argsJson =>
      exact .bind (hostSafe_calling (request_only _ _) kept_bridgeServes hserves)
        fun _ s hs => hquiet rfl hs

end Host

section Node

/-- When the host stores a configuration, the registry has a client. -/
def RegistryOpen (N : Node) : Prop :=
  ∀ cfg next, N.call = some (.op (.storeServer cfg) next) → rlnModule ∈ N.shared.clients

/-- What the statics keep to: a configuration is stored only with its verifiers and
the registry open, and the worker is spawned only after that with the bridge open. -/
structure Setup (s : Shared) : Prop where
  verifiers : VerifiersOpen s
  registry : s.server ≠ none → rlnModule ∈ s.clients
  spawned : 0 < s.workers → libp2pModule ∈ s.clients ∧ s.server ≠ none

theorem Setup.targetsOpen {s : Shared} (h : Setup s) (hbridge : libp2pModule ∈ s.clients)
    (hserver : s.server ≠ none) : TargetsOpen s :=
  ⟨hbridge, h.registry hserver, h.verifiers⟩

theorem SameSetup.setup {s s' : Shared} (h : SameSetup s s') (hs : Setup s) : Setup s' where
  verifiers := h.verifiersOpen hs.verifiers
  registry hserver := h.clients ▸ hs.registry (h.server ▸ hserver)
  spawned hworkers := by
    rw [h.clients, h.server]
    exact hs.spawned (h.workers ▸ hworkers)

variable [CaseTables]

/-- Clients, configuration and workers come and stay. -/
theorem grows_execOp (env : Env) (s : Shared) (e : Op) :
    s.clients ⊆ (execOp env s e).2.clients ∧
      (s.server ≠ none → (execOp env s e).2.server ≠ none) ∧
      s.workers ≤ (execOp env s e).2.workers := by
  refine ⟨clients_execOp env s e, ?_⟩
  cases e with
  | storeServer cfg => exact ⟨fun _ => Option.some_ne_none cfg, Nat.le_refl _⟩
  | spawnWorker => exact ⟨id, Nat.le_succ _⟩
  | append path nul =>
      rw [execOp]
      split <;> exact ⟨id, Nat.le_refl _⟩
  | createClient target =>
      rw [execOp]
      split <;> exact ⟨id, Nat.le_refl _⟩
  | _ => exact ⟨id, Nat.le_refl _⟩

theorem Setup.step {s : Shared} {e : Op} (h : Setup s) (hneed : HostNeed s e)
    (hregistry : ∀ cfg, e = .storeServer cfg → rlnModule ∈ s.clients) (env : Env) :
    Setup (execOp env s e).2 := by
  cases e with
  | storeServer cfg =>
      refine ⟨?_, fun _ => hregistry cfg rfl, ?_⟩
      · intro cfg' hserver
        cases hserver
        exact hneed
      · exact fun hworkers => ⟨(h.spawned hworkers).1, Option.some_ne_none cfg⟩
  | spawnWorker => exact ⟨h.verifiers, h.registry, fun _ => hneed⟩
  | createClient target =>
      rw [execOp]
      split
      · refine ⟨fun cfg hserver t ht => ?_, fun hserver => ?_, fun hworkers => ?_⟩
        · exact Finset.mem_insert_of_mem (h.verifiers cfg hserver t ht)
        · exact Finset.mem_insert_of_mem (h.registry hserver)
        · obtain ⟨hbridge, hserver⟩ := h.spawned hworkers
          exact ⟨Finset.mem_insert_of_mem hbridge, hserver⟩
      · exact h
  | append path nul =>
      rw [execOp]
      split
      · exact ⟨h.verifiers, h.registry, h.spawned⟩
      · exact h
  | _ => exact ⟨h.verifiers, h.registry, h.spawned⟩

/-- The invariant of a process whose registry is open in time: the host's call and
the worker are safe beside each other, and the worker has found every client it
looked for. -/
structure NodeOpen (N : Node) : Prop where
  setup : Setup N.shared
  idle : N.call = none → BridgeServes N.shared
  host : ∀ p, N.call = some p → HostSafe p HostLeaves N.shared
  served : N.served = true → libp2pModule ∈ N.shared.clients ∧ N.shared.server ≠ none
  spawned : N.worker ≠ none → 0 < N.shared.workers
  worker : ∀ w, N.worker = some w → WorkerSafe w.prog N.shared
  found : ∀ w, N.worker = some w → ∀ target,
    (⟨.findClient target, false⟩ : Event Answer) ∉ w.trace

theorem nodeOpen_new (files : String → Option String) : NodeOpen (.new files) where
  setup := ⟨fun _ h => (by cases h), fun h => absurd rfl h, fun h => absurd h (Nat.lt_irrefl 0)⟩
  idle _ h := by cases h
  host _ h := by cases h
  served h := by cases h
  spawned h := absurd rfl h
  worker _ h := by cases h
  found _ h := by cases h

/-- An operation of the host. -/
theorem NodeOpen.calling {N : Node} (h : NodeOpen N) (hregistry : RegistryOpen N) {e : Op}
    {next : Answer e → Prog HostResult} (hcall : N.call = some (.op e next)) (env : Env) :
    NodeOpen { N with
      shared := (execOp env N.shared e).2
      call := some (next (execOp env N.shared e).1) } := by
  obtain ⟨hneed, hnext⟩ := h.host _ hcall N.shared (.refl _)
  obtain ⟨hclients, hserver, hworkers⟩ := grows_execOp env N.shared e
  have hsetup : Setup (execOp env N.shared e).2 := by
    refine h.setup.step hneed ?_ env
    rintro cfg rfl
    exact hregistry cfg next hcall
  have hspawned : N.worker ≠ none → 0 < (execOp env N.shared e).2.workers :=
    fun hworker => Nat.lt_of_lt_of_le (h.spawned hworker) hworkers
  refine ⟨hsetup, fun hnone => absurd hnone (Option.some_ne_none _), ?_, ?_, hspawned, ?_,
    h.found⟩
  · intro p hp
    obtain rfl := Option.some.inj hp
    exact hnext env
  · intro hserved
    obtain ⟨hbridge, hconfigured⟩ := h.served hserved
    exact ⟨hclients hbridge, hserver hconfigured⟩
  · intro w hw
    -- the worker relies on everything being open, which the new state still gives
    have hready := hsetup.spawned (hspawned (by rw [hw]; exact Option.some_ne_none w))
    exact (h.worker w hw).stable WorkerRely.trans
      ⟨hclients, fun _ => hsetup.targetsOpen hready.1 hready.2⟩

/-- An operation of the worker. -/
theorem NodeOpen.working {N : Node} (h : NodeOpen N) {turns : Nat} {trace : Trace} {e : Op}
    {next : Answer e → Prog Unit} (hworker : N.worker = some ⟨turns, trace, .op e next⟩)
    (env : Env) :
    NodeOpen { N with
      shared := (execOp env N.shared e).2
      worker := some ⟨turns, trace ++ [⟨e, (execOp env N.shared e).1⟩],
        next (execOp env N.shared e).1⟩ } := by
  obtain ⟨hneed, hnext⟩ := h.worker _ hworker N.shared (.refl _)
  have hsame := sameSetup_requesting hneed.1 env N.shared
  refine ⟨hsame.setup h.setup, ?_, ?_, ?_, ?_, ?_, ?_⟩
  · exact fun hnone => kept_bridgeServes.same _ _ hsame (h.idle hnone)
  · exact fun p hp => (h.host p hp).stable SameSetup.trans hsame
  · intro hserved
    obtain ⟨hbridge, hserver⟩ := h.served hserved
    exact ⟨hsame.clients ▸ hbridge, hsame.server ▸ hserver⟩
  · intro _
    rw [hsame.workers]
    exact h.spawned (by rw [hworker]; exact Option.some_ne_none _)
  · intro w hw
    obtain rfl := Option.some.inj hw
    exact hnext env
  · intro w hw target hlost
    obtain rfl := Option.some.inj hw
    rcases List.mem_append.mp hlost with hlost | hlost
    · exact h.found _ hworker target hlost
    · have hevent := (List.mem_singleton.mp hlost).symm
      have hop : e = .findClient target := (Sigma.mk.inj hevent).1
      exact of_decide_eq_false (findClient_answer hevent).symm (hneed.2 target hop)

variable [SerdeJson] [Base64]

theorem NodeOpen.step {N N' : Node} (h : NodeOpen N) (hregistry : RegistryOpen N)
    (hstep : NodeStep N N') : NodeOpen N' := by
  cases hstep with
  | begins hcall call =>
      refine ⟨h.setup, fun hnone => absurd hnone (Option.some_ne_none _), ?_, h.served,
        h.spawned, h.worker, h.found⟩
      intro p hp
      obtain rfl := Option.some.inj hp
      exact hostBody_safe call (h.idle hcall)
  | calling hcall env => exact h.calling hregistry hcall env
  | returns hcall =>
      obtain ⟨hserves, hserved⟩ := h.host _ hcall N.shared (.refl _)
      refine ⟨h.setup, fun _ => hserves, fun p hp => (by cases hp), ?_, h.spawned, h.worker,
        h.found⟩
      intro hdone
      rcases Bool.or_eq_true_iff.mp hdone with hdone | hdone
      · exact h.served hdone
      · exact hserved hdone
  | spawned hworker hspawned turns =>
      obtain ⟨hbridge, hserver⟩ := h.setup.spawned hspawned
      refine ⟨h.setup, h.idle, h.host, h.served, fun _ => hspawned, ?_, ?_⟩
      · intro w hw
        obtain rfl := Option.some.inj hw
        exact workerLoop_safe turns (h.setup.targetsOpen hbridge hserver)
      · intro w hw target hlost
        obtain rfl := Option.some.inj hw
        cases hlost
  | working hworker env => exact h.working hworker env

/-- In every run in which the registry has a client whenever a configuration is
stored, everything the worker may call is open from the first `serve` that returns
`Ok` on, and the worker finds every client it looks for. -/
theorem targets_open {files : String → Option String} {N : Node}
    (hrun : NodeRun RegistryOpen (.new files) N) :
    (N.served = true → TargetsOpen N.shared) ∧
      ∀ w, N.worker = some w → ∀ target,
        (⟨.findClient target, false⟩ : Event Answer) ∉ w.trace := by
  have hopen : NodeOpen N :=
    hrun.invariant NodeOpen (fun _ _ hregistry h hstep => h.step hregistry hstep)
      (nodeOpen_new files)
  refine ⟨fun hserved => ?_, hopen.found⟩
  obtain ⟨hbridge, hserver⟩ := hopen.served hserved
  exact hopen.setup.targetsOpen hbridge hserver

end Node

section Runs

variable [CaseTables]

theorem clients_does {α : Type} {p q : Prog α} {s s' : Shared} {envs : List Env}
    {trace : Trace} (h : Does execOp p s envs trace q s') : s.clients ⊆ s'.clients := by
  induction h with
  | done p s => exact Finset.Subset.refl _
  | act _ ih => exact (clients_execOp _ _ _).trans ih

/-- Nothing of `on_context_ready` stores a configuration. -/
theorem registryOpen_contextReady [SerdeJson] [Base64] {s s' : Shared} {envs : List Env}
    {trace : Trace} {p : Prog HostResult}
    (h : Does execOp (hostBody .contextReady) s envs trace p s') :
    RegistryOpen ⟨s', some p, false, none⟩ := by
  have honly : (hostBody .contextReady).Only fun e => e = .recordOwner ∨ Calling e :=
    only_bind (init_only _) fun _ => only_ret _
  have hp := (only_after honly h.after).2
  intro cfg next hcall
  obtain rfl := Option.some.inj hcall
  rcases hp.1 with hstore | hstore
  · cases hstore
  · exact hstore.elim

end Runs

open Platform in
theorem targets_open_serving : TargetsOpen (openShared fun _ => none) := by
  refine (targets_open (nodeRun_open (fun _ => none) ?_ registryOpen_contextReady ?_)).1 rfl
  · intro N hidle cfg next hcall
    rw [hidle] at hcall
    cases hcall
  · intro envs trace p s h _ _ _
    exact clients_does h (by simp [Shared.ready])

open Platform in
/-- The registry's module is not loaded when the context gets ready: `serve` succeeds
all the same, and the worker has no client for the registry. -/
theorem registry_unopened : ∃ N, NodeRun (fun _ => True) (.new fun _ => none) N ∧
    N.served = true ∧ rlnModule ∉ N.shared.clients := by
  let s : Shared := { owner := true, clients := {libp2pModule} }
  have hready : Returns execOp (hostBody .contextReady) {} .ready s :=
    ⟨[quiet, quiet, { created := false }], _, .act (.act (.act (.done _ _)))⟩
  have hserve : Returns execOp (hostBody (.serve (SerdeJson.toText openArgs))) s
      (.served (.ok mountedReply)) ((s.merge "").mounted openCfg) :=
    (serve_open rfl rfl (by simp [s])).bind (returns_ret _ _)
  have hfirst := @NodeRun.call _ _ _ (.new fun _ => none) (fun _ => True) .contextReady _ _ rfl
    hready ⟨trivial, fun _ => trivial⟩
  have hsecond := @NodeRun.call _ _ _ ⟨s, none, false, none⟩ (fun _ => True) (.serve _) _ _ rfl
    hserve ⟨trivial, fun _ => trivial⟩
  refine ⟨_, hfirst.trans hsecond, rfl, ?_⟩
  change rlnModule ∉ ({libp2pModule} : Finset String)
  decide

end RlnGifter
