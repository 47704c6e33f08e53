/-
What the functions of the gifter node have done at any point of a run: for each
of them one inversion of its traces, by which the proofs about whole runs read
the code.
-/
import RlnGifter.Server

namespace RlnGifter

open Program

/-- Looking a client or the owner up. -/
def Lookup : Op → Prop
  | .findClient _ | .readOwner => True
  | _ => False

/-- The result of an asynchronous call by the convention of cdylib modules. -/
def moduleResult [SerdeJson] (method : String) (seen : Seen) : Except String Value :=
  (asyncResult method seen).bind (unwrapModule method)

/-- The runs of a call made off the owner thread: it is looking up or about to
call, it was refused without a call, or the call was answered. -/
inductive CallRun {α : Type} (target method argsJson : String) (timeoutMs : Int)
    (result : Seen → Except String α) : Trace → Prog (Except String α) → Prop where
  | running (found : Trace) (hfound : ∀ event ∈ found, Lookup event.1) (e : Op)
      (next : Answer e → Prog (Except String α))
      (he : Lookup e ∨ e = .invokeAsync target method argsJson timeoutMs) :
      CallRun target method argsJson timeoutMs result found (.op e next)
  | unsent (found : Trace) (hfound : ∀ event ∈ found, Lookup event.1)
      (msg : String) :
      CallRun target method argsJson timeoutMs result found (.ret (.error msg))
  | answered (found : Trace) (hfound : ∀ event ∈ found, Lookup event.1)
      (outcome : Outcome) :
      CallRun target method argsJson timeoutMs result
        (found ++ [⟨.invokeAsync target method argsJson timeoutMs, outcome⟩])
        (.ret (result outcome.seen))

/-- A call that has returned was refused or answered. -/
theorem CallRun.returned {α : Type} {target method argsJson : String}
    {timeoutMs : Int} {result : Seen → Except String α} {trace : Trace}
    {r : Except String α}
    (h : CallRun target method argsJson timeoutMs result trace (.ret r)) :
    ((∀ event ∈ trace, Lookup event.1) ∧ ∃ msg, r = .error msg) ∨
      ∃ (found : Trace) (outcome : Outcome), (∀ event ∈ found, Lookup event.1) ∧
        trace = found ++ [⟨.invokeAsync target method argsJson timeoutMs, outcome⟩] ∧
        r = result outcome.seen := by
  generalize hq : Program.ret r = q at h
  cases h with
  | running _ _ e next => cases hq
  | unsent _ hfound msg => exact Or.inl ⟨hfound, msg, Program.ret.inj hq⟩
  | answered found hfound outcome =>
      exact Or.inr ⟨found, outcome, hfound, rfl, Program.ret.inj hq⟩

section Calls

theorem onOwnerThread_worker_only : (onOwnerThread .worker).Only Lookup := by
  rw [onOwnerThread]
  exact ⟨trivial, fun _ => trivial⟩

theorem onOwnerThread_worker_after {trace : Trace} {answer : Bool}
    (h : (onOwnerThread .worker).After trace (.ret answer)) : answer = false := by
  simp only [onOwnerThread, perform_bind, pure_eq_ret] at h
  obtain ⟨recorded, rest, -, hrest⟩ := op_after_ret h
  have hvalue := (ret_after.mp hrest).2
  simpa using hvalue

theorem clientPtr_worker_only (target : String) :
    (clientPtr .worker target).Only Lookup := by
  have hfind : (perform (.findClient target)).Only Lookup := only_perform trivial
  rw [clientPtr]
  simp only [perform_bind, onOwnerThread]
  refine ⟨trivial, fun found => ?_⟩
  cases found
  · simpa using ⟨trivial, hfind⟩
  · simpa using hfind

variable [SerdeJson] {target method : String} {args : Value} {timeoutMs : Int}

/-- What a call made off the owner thread has done. -/
theorem callJson_worker_after {trace : Trace} {q : Prog (Except String Value)}
    (h : (callJson .worker target method args timeoutMs).After trace q) :
    CallRun target method (SerdeJson.toText args) timeoutMs (asyncResult method)
      trace q := by
  rw [callJson] at h
  rcases bind_after h with ⟨e, next, hptr, rfl⟩ | ⟨found, rest, ptr, rfl, hptr, h⟩
  · obtain ⟨hfound, he⟩ := only_after (clientPtr_worker_only target) hptr
    exact .running _ hfound e _ (Or.inl he.1)
  · have hfound := (only_after (clientPtr_worker_only target) hptr).1
    cases ptr with
    | false =>
        obtain ⟨rfl, rfl⟩ := ret_after.mp h
        rw [List.append_nil]
        exact .unsent _ hfound _
    | true =>
        simp only [↓reduceIte] at h
        split at h
        · obtain ⟨rfl, rfl⟩ := ret_after.mp h
          rw [List.append_nil]
          exact .unsent _ hfound _
        · rcases bind_after h with ⟨e, next, howner, rfl⟩ |
            ⟨found', rest', owner, rfl, howner, h⟩
          · obtain ⟨hfound', he⟩ := only_after onOwnerThread_worker_only howner
            exact .running _ (by simpa [or_imp, forall_and] using ⟨hfound, hfound'⟩) e
              _ (Or.inl he.1)
          · have hfound' := (only_after onOwnerThread_worker_only howner).1
            have hall : ∀ event ∈ found ++ found', Lookup event.1 := by
              simpa [or_imp, forall_and] using ⟨hfound, hfound'⟩
            obtain rfl := onOwnerThread_worker_after howner
            rw [← List.append_assoc]
            simp only [Bool.false_eq_true, ↓reduceIte, perform_bind, pure_eq_ret] at h
            rcases op_after.mp h with ⟨rfl, rfl⟩ | ⟨outcome, last, rfl, hlast⟩
            · rw [List.append_nil]
              exact .running _ hall _ _ (Or.inr rfl)
            · obtain ⟨rfl, rfl⟩ := ret_after.mp hlast
              exact .answered _ hall outcome

theorem callModuleJson_worker_after {trace : Trace}
    {q : Prog (Except String Value)}
    (h : (callModuleJson .worker target method args timeoutMs).After trace q) :
    CallRun target method (SerdeJson.toText args) timeoutMs (moduleResult method)
      trace q := by
  rw [callModuleJson] at h
  rcases bind_after h with ⟨e, next, hcall, rfl⟩ | ⟨first, second, v, rfl, hcall, h⟩
  · cases callJson_worker_after hcall with
    | running _ hfound _ _ he => exact .running _ hfound e _ he
  · obtain ⟨rfl, rfl⟩ := ret_after.mp h
    rw [List.append_nil]
    rcases (callJson_worker_after hcall).returned with ⟨hfound, msg, rfl⟩ |
      ⟨found, outcome, hfound, rfl, rfl⟩
    · exact .unsent _ hfound msg
    · exact .answered found hfound outcome

theorem callModuleJson_worker_ok {trace : Trace} {v : Value}
    (h : (callModuleJson .worker target method args timeoutMs).After trace
      (.ret (.ok v))) :
    ∃ (found : Trace) (outcome : Outcome), (∀ event ∈ found, Lookup event.1) ∧
      trace = found ++ [⟨.invokeAsync target method (SerdeJson.toText args) timeoutMs,
        outcome⟩] ∧
      moduleResult method outcome.seen = .ok v := by
  rcases (callModuleJson_worker_after h).returned with ⟨-, msg, heq⟩ |
    ⟨found, outcome, hfound, htrace, heq⟩
  · cases heq
  · exact ⟨found, outcome, hfound, htrace, heq.symm⟩

theorem callModuleJson_worker_only :
    (callModuleJson .worker target method args timeoutMs).Only fun op =>
      Lookup op ∨ op = .invokeAsync target method (SerdeJson.toText args) timeoutMs := by
  apply only_of_after
  intro trace e next h
  cases callModuleJson_worker_after h with
  | running _ _ _ _ he => exact he

end Calls

section Register

variable [SerdeJson] (cfg : ServerCfg) (idc : List UInt8) (rate : UInt64)

/-- The call of `register_member`. -/
abbrev registerCall : Op :=
  .invokeAsync rlnModule "register_member"
    (SerdeJson.toText (.array [.string cfg.config, .string cfg.wallet,
      .string (hexEncode idc), .u64 rate]))
    registerTimeoutMs

/-- The call of `get_membership`. -/
abbrev membershipCall : Op :=
  .invokeAsync rlnModule "get_membership"
    (SerdeJson.toText (.array [.string cfg.config, .string (hexEncode idc)]))
    getMembershipTimeoutMs

/-- What the confirmation loop does: look up, ask, read the clock. -/
def Polling (op : Op) : Prop :=
  Lookup op ∨ op = membershipCall cfg idc ∨ op = .pastDeadline

variable {cfg idc rate}

section Only

variable {ok : Op → Prop} {idcHex : String}
  (hpoll : (callModuleJson .worker rlnModule "get_membership"
    (.array [.string cfg.config, .string idcHex]) getMembershipTimeoutMs).Only ok)
  (hclock : ok .pastDeadline)

include hpoll hclock

theorem confirmTurn_only {txHash : List UInt8}
    {again : Prog (Except RegisterError MembershipAllocationSuccess)}
    (hagain : again.Only ok) : (confirmTurn cfg idcHex txHash again).Only ok := by
  rw [confirmTurn]
  apply only_bind hpoll
  intro m
  split
  · trivial
  · refine ⟨hclock, fun past => ?_⟩
    cases past
    · exact hagain
    · trivial

theorem confirm_only (txHash : List UInt8) (pauses : Nat) :
    (confirm cfg idcHex txHash pauses).Only ok := by
  induction pauses with
  | zero => exact confirmTurn_only hpoll hclock trivial
  | succ pauses ih => exact confirmTurn_only hpoll hclock ih

end Only

theorem confirm_polling (txHash : List UInt8) (pauses : Nat) :
    (confirm cfg (hexEncode idc) txHash pauses).Only (Polling cfg idc) :=
  confirm_only (only_mono (fun _ he => he.imp_right Or.inl) callModuleJson_worker_only)
    (Or.inr (Or.inr rfl)) txHash pauses

/-- What the confirmation loop may return after `trace`: a leaf that the
registry reported there, or that the registration is unconfirmed. -/
def ConfirmResult (cfg : ServerCfg) (idc txHash : List UInt8) (trace : Trace)
    (r : Except RegisterError MembershipAllocationSuccess) : Prop :=
  r = .error (.unconfirmed (unconfirmedMessage txHash)) ∨
    ∃ (leaf : UInt64) (poll : Outcome) (reply : Value),
      r = .ok (membership cfg txHash leaf) ∧
      (⟨membershipCall cfg idc, poll⟩ : Event Answer) ∈ trace ∧
      moduleResult "get_membership" poll.seen = .ok reply ∧
      confirmedLeaf reply = some leaf

theorem ConfirmResult.mono {txHash : List UInt8} {trace trace' : Trace}
    {r : Except RegisterError MembershipAllocationSuccess}
    (h : ConfirmResult cfg idc txHash trace r) (hsub : trace ⊆ trace') :
    ConfirmResult cfg idc txHash trace' r := by
  rcases h with h | ⟨leaf, poll, reply, hr, hpoll, hrest⟩
  · exact Or.inl h
  · exact Or.inr ⟨leaf, poll, reply, hr, hsub hpoll, hrest⟩

theorem confirmTurn_returns {txHash : List UInt8} {trace : Trace}
    {again : Prog (Except RegisterError MembershipAllocationSuccess)}
    {r : Except RegisterError MembershipAllocationSuccess}
    (hagain : ∀ rest, again.After rest (.ret r) →
      ConfirmResult cfg idc txHash rest r)
    (h : (confirmTurn cfg (hexEncode idc) txHash again).After trace (.ret r)) :
    ConfirmResult cfg idc txHash trace r := by
  rw [confirmTurn] at h
  obtain ⟨asked, rest, m, rfl, hasked, hrest⟩ := bind_after_ret h
  cases hleaf : m.toOption.bind confirmedLeaf with
  | some leaf =>
      simp only [hleaf] at hrest
      obtain ⟨rfl, hr⟩ := ret_after.mp hrest
      cases hr
      cases m with
      | error e => cases hleaf
      | ok reply =>
          obtain ⟨found, poll, -, rfl, hreply⟩ := callModuleJson_worker_ok hasked
          exact Or.inr ⟨leaf, poll, reply, rfl, by simp, hreply, hleaf⟩
  | none =>
      simp only [hleaf, perform_bind] at hrest
      obtain ⟨past, rest', rfl, hrest'⟩ := op_after_ret hrest
      cases past with
      | true =>
          obtain ⟨rfl, hr⟩ := ret_after.mp hrest'
          cases hr
          exact Or.inl rfl
      | false =>
          apply (hagain rest' hrest').mono
          intro event hevent
          simp [hevent]

theorem confirm_returns {txHash : List UInt8} {pauses : Nat} {trace : Trace}
    {r : Except RegisterError MembershipAllocationSuccess}
    (h : (confirm cfg (hexEncode idc) txHash pauses).After trace (.ret r)) :
    ConfirmResult cfg idc txHash trace r := by
  induction pauses generalizing trace with
  | zero =>
      apply confirmTurn_returns _ h
      intro rest hrest
      obtain ⟨-, hr⟩ := ret_after.mp hrest
      cases hr
      exact Or.inl rfl
  | succ pauses ih =>
      exact confirmTurn_returns (fun rest hrest => ih hrest) h

/-- The runs of `register`: it is calling, it was refused or answered with an
error, or the call was answered and the loop has asked since. -/
inductive RegisterRun (cfg : ServerCfg) (idc : List UInt8) (rate : UInt64) :
    Trace → Prog (Except RegisterError MembershipAllocationSuccess) → Prop where
  | calling (found : Trace) (hfound : ∀ event ∈ found, Lookup event.1) (e : Op)
      (next : Answer e → Prog (Except RegisterError MembershipAllocationSuccess))
      (he : Lookup e ∨ e = registerCall cfg idc rate) :
      RegisterRun cfg idc rate found (.op e next)
  | unsent (found : Trace) (hfound : ∀ event ∈ found, Lookup event.1)
      (msg : String) :
      RegisterRun cfg idc rate found (.ret (.error (.notSubmitted msg)))
  | failed (found : Trace) (hfound : ∀ event ∈ found, Lookup event.1)
      (outcome : Outcome) (msg : String)
      (hresult : moduleResult "register_member" outcome.seen = .error msg) :
      RegisterRun cfg idc rate (found ++ [⟨registerCall cfg idc rate, outcome⟩])
        (.ret (.error (.notSubmitted msg)))
  | confirming (found : Trace) (hfound : ∀ event ∈ found, Lookup event.1)
      (outcome : Outcome) (reply : Value)
      (hresult : moduleResult "register_member" outcome.seen = .ok reply)
      (polls : Trace) (hpolls : ∀ event ∈ polls, Polling cfg idc event.1) (e : Op)
      (next : Answer e → Prog (Except RegisterError MembershipAllocationSuccess))
      (he : Polling cfg idc e) :
      RegisterRun cfg idc rate
        (found ++ [⟨registerCall cfg idc rate, outcome⟩] ++ polls) (.op e next)
  | settled (found : Trace) (hfound : ∀ event ∈ found, Lookup event.1)
      (outcome : Outcome) (reply : Value)
      (hresult : moduleResult "register_member" outcome.seen = .ok reply)
      (polls : Trace) (hpolls : ∀ event ∈ polls, Polling cfg idc event.1)
      (r : Except RegisterError MembershipAllocationSuccess)
      (hr : ConfirmResult cfg idc (txHashBytes reply) polls r) :
      RegisterRun cfg idc rate
        (found ++ [⟨registerCall cfg idc rate, outcome⟩] ++ polls) (.ret r)

theorem register_after {trace : Trace}
    {q : Prog (Except RegisterError MembershipAllocationSuccess)}
    (h : (register cfg idc rate).After trace q) : RegisterRun cfg idc rate trace q := by
  rw [register] at h
  rcases bind_after h with ⟨e, next, hcall, rfl⟩ | ⟨first, polls, result, rfl,
    hcall, hrest⟩
  · cases callModuleJson_worker_after hcall with
    | running _ hfound _ _ he => exact .calling _ hfound e _ he
  · cases result with
    | error msg =>
        obtain ⟨rfl, rfl⟩ := ret_after.mp hrest
        rw [List.append_nil]
        rcases (callModuleJson_worker_after hcall).returned with ⟨hfound, -⟩ |
          ⟨found, outcome, hfound, rfl, heq⟩
        · exact .unsent _ hfound msg
        · exact .failed found hfound outcome msg heq.symm
    | ok reply =>
        obtain ⟨found, outcome, hfound, rfl, hresult⟩ := callModuleJson_worker_ok hcall
        obtain ⟨hpolls, hq⟩ := only_after (confirm_polling _ _) hrest
        cases q with
        | ret r =>
            exact .settled found hfound outcome reply hresult polls hpolls r
              (confirm_returns hrest)
        | op e next =>
            exact .confirming found hfound outcome reply hresult polls hpolls e next
              hq.1

/-- What `register` does: look up, call, ask and read the clock. -/
theorem register_only : (register cfg idc rate).Only fun e =>
    Polling cfg idc e ∨ e = registerCall cfg idc rate := by
  apply only_of_after
  intro trace e next h
  cases register_after h with
  | calling _ _ _ _ he => exact he.imp_left Or.inl
  | confirming _ _ _ _ _ _ _ _ _ he => exact Or.inl he

end Register

section Authenticate

variable [SerdeJson] (cfg : ServerCfg) (req : RlnGifterRequest)
  (authType : String) (rate : UInt64)

/-- The call of a verifier. -/
abbrev verifyCall (verifier verifyJson : String) : Op :=
  .invokeAsync verifier verifyMethod (SerdeJson.toText (.array [.string verifyJson]))
    authVerifyTimeoutMs

/-- `asked` is the call of the verifier configured for `authType`, answered with
an accepting verdict. -/
def Verified (asked : Trace) (verifier : String) (verdict : Verdict) : Prop :=
  ∃ (verifierConfig : Option Value) (verifyJson : String) (found : Trace)
    (outcome : Outcome) (reply : Value),
    lookupField authType cfg.authVerifiers = some (verifier, verifierConfig) ∧
    SerdeJson.structText (verifyRequest req authType rate verifierConfig).entries =
      .ok verifyJson ∧
    (∀ event ∈ found, Lookup event.1) ∧
    asked = found ++ [⟨verifyCall verifier verifyJson, outcome⟩] ∧
    moduleResult verifyMethod outcome.seen = .ok reply ∧
    parseVerdict reply = .ok verdict ∧ verdict.ok = true

/-- What authentication does before it reserves: look up and ask the verifier
configured for the type. -/
def Asking (op : Op) : Prop :=
  Lookup op ∨ ∃ verifier verifierConfig verifyJson,
    lookupField authType cfg.authVerifiers = some (verifier, verifierConfig) ∧
    SerdeJson.structText (verifyRequest req authType rate verifierConfig).entries =
      .ok verifyJson ∧
    op = verifyCall verifier verifyJson

variable {cfg req authType rate} in
theorem Verified.asking {asked : Trace} {verifier : String} {verdict : Verdict}
    (h : Verified cfg req authType rate asked verifier verdict) :
    ∀ event ∈ asked, Asking cfg req authType rate event.1 := by
  obtain ⟨verifierConfig, verifyJson, found, outcome, reply, hlookup, htext, hfound,
    rfl, -⟩ := h
  intro event hevent
  rcases List.mem_append.mp hevent with hevent | hevent
  · exact Or.inl (hfound event hevent)
  · rw [List.mem_singleton.mp hevent]
    exact Or.inr ⟨verifier, verifierConfig, verifyJson, hlookup, htext, rfl⟩

variable {cfg req authType rate} in
/-- A trace in which the verifier was called holds the verdict of that call. -/
theorem Verified.of_call {verified rest found tail : Trace}
    {verifier verifier' verifyJson : String} {verifierConfig : Option Value}
    {outcome : Outcome} {verdict : Verdict}
    (hlookup : lookupField authType cfg.authVerifiers =
      some (verifier, verifierConfig))
    (htext : SerdeJson.structText
      (verifyRequest req authType rate verifierConfig).entries = .ok verifyJson)
    (hfound : ∀ event ∈ found, Lookup event.1)
    (h : Verified cfg req authType rate verified verifier' verdict)
    (heq : found ++ ⟨verifyCall verifier verifyJson, outcome⟩ :: tail =
      verified ++ rest) :
    verifier' = verifier ∧ verified = found ++ [⟨verifyCall verifier verifyJson, outcome⟩] ∧
      rest = tail ∧ ∃ reply, moduleResult verifyMethod outcome.seen = .ok reply ∧
        parseVerdict reply = .ok verdict ∧ verdict.ok = true := by
  obtain ⟨vcfg, json, found', outcome', reply, hlookup', htext', hfound', rfl, hresult,
    hparse, hok⟩ := h
  rw [hlookup] at hlookup'
  cases hlookup'
  rw [htext] at htext'
  cases htext'
  rw [List.append_assoc] at heq
  obtain ⟨rfl, hevent, rfl⟩ := cut_unique hfound hfound' id id heq
  cases hevent
  exact ⟨rfl, rfl, rfl, reply, hresult, hparse, hok⟩

variable {cfg req authType rate} in
/-- A trace holds one accepting verdict at most. -/
theorem Verified.unique {asked asked' rest rest' : Trace} {verifier verifier' : String}
    {verdict verdict' : Verdict}
    (h : Verified cfg req authType rate asked verifier verdict)
    (h' : Verified cfg req authType rate asked' verifier' verdict')
    (heq : asked ++ rest = asked' ++ rest') :
    asked = asked' ∧ verifier = verifier' ∧ verdict = verdict' ∧ rest = rest' := by
  obtain ⟨vcfg, json, found, outcome, reply, hlookup, htext, hfound, rfl, hresult,
    hparse, -⟩ := h
  rw [List.append_assoc] at heq
  obtain ⟨rfl, rfl, rfl, reply', hresult', hparse', -⟩ :=
    Verified.of_call hlookup htext hfound h' heq
  rw [hresult] at hresult'
  cases hresult'
  rw [hparse] at hparse'
  cases hparse'
  exact ⟨rfl, rfl, rfl, rfl⟩

variable [CaseTables]

/-- No accepting verdict with a usable nullifier, or without one, is in the trace. -/
def Unaccepted (asked : Trace) : Prop :=
  ∀ verified rest verifier verdict, asked = verified ++ rest →
    Verified cfg req authType rate verified verifier verdict →
    ∃ nul, verdict.nullifier = some nul ∧ wellFormed (normalize nul) = false

/-- The runs of `authenticate`: the gifter is open, it is asking, it refused
before the store, the verdict has no nullifier, it is about to reserve the key of
the verdict, and it found that key used or reserved it. -/
inductive AuthRun : Trace → Prog (Except RlnGifterResponse (Option String)) → Prop where
  | opened (hopen : cfg.authVerifiers = []) : AuthRun [] (.ret (.ok none))
  | asking (asked : Trace)
      (hasked : ∀ event ∈ asked, Asking cfg req authType rate event.1) (e : Op)
      (next : Answer e → Prog (Except RlnGifterResponse (Option String)))
      (he : Asking cfg req authType rate e) : AuthRun asked (.op e next)
  | refused (asked : Trace)
      (hasked : ∀ event ∈ asked, Asking cfg req authType rate event.1)
      (hunaccepted : Unaccepted cfg req authType rate asked) (msg : String) :
      AuthRun asked (.ret (.error (failureResponse req.requestId false msg)))
  | accepted (asked : Trace) (verifier : String) (verdict : Verdict)
      (hverified : Verified cfg req authType rate asked verifier verdict)
      (hnul : verdict.nullifier = none) : AuthRun asked (.ret (.ok none))
  | reserving (asked : Trace) (verifier : String) (verdict : Verdict)
      (hverified : Verified cfg req authType rate asked verifier verdict)
      (nul : String) (hnul : verdict.nullifier = some nul)
      (hformed : wellFormed (normalize nul) = true)
      (next : Answer (.reserve (replayKey authType (normalize nul))) →
        Prog (Except RlnGifterResponse (Option String))) :
      AuthRun asked (.op (.reserve (replayKey authType (normalize nul))) next)
  | used (asked : Trace) (verifier : String) (verdict : Verdict)
      (hverified : Verified cfg req authType rate asked verifier verdict)
      (nul : String) (hnul : verdict.nullifier = some nul)
      (hformed : wellFormed (normalize nul) = true) :
      AuthRun (asked ++ [⟨.reserve (replayKey authType (normalize nul)), true⟩])
        (.ret (.error (failureResponse req.requestId false
          ("credential already used: " ++ replayKey authType (normalize nul)))))
  | reserved (asked : Trace) (verifier : String) (verdict : Verdict)
      (hverified : Verified cfg req authType rate asked verifier verdict)
      (nul : String) (hnul : verdict.nullifier = some nul)
      (hformed : wellFormed (normalize nul) = true) :
      AuthRun (asked ++ [⟨.reserve (replayKey authType (normalize nul)), false⟩])
        (.ret (.ok (some (replayKey authType (normalize nul)))))

variable {cfg req authType rate}

theorem reserveVerdict_after {asked trace : Trace} {verifier : String}
    {verdict : Verdict} {q : Prog (Except RlnGifterResponse (Option String))}
    (hverified : Verified cfg req authType rate asked verifier verdict)
    (h : (reserveVerdict req authType verifier verdict.nullifier).After trace q) :
    AuthRun cfg req authType rate (asked ++ trace) q := by
  cases hnul : verdict.nullifier with
  | none =>
      rw [hnul, reserveVerdict] at h
      obtain ⟨rfl, rfl⟩ := ret_after.mp h
      rw [List.append_nil]
      exact .accepted asked verifier verdict hverified hnul
  | some nul =>
      rw [hnul, reserveVerdict] at h
      by_cases hformed : wellFormed (normalize nul) = true
      · simp only [hformed, Bool.not_true, Bool.false_eq_true, ↓reduceIte,
          perform_bind] at h
        rcases op_after.mp h with ⟨rfl, rfl⟩ | ⟨used, rest, rfl, hrest⟩
        · rw [List.append_nil]
          exact .reserving asked verifier verdict hverified nul hnul hformed _
        · cases used with
          | true =>
              obtain ⟨rfl, rfl⟩ := ret_after.mp hrest
              exact .used asked verifier verdict hverified nul hnul hformed
          | false =>
              obtain ⟨rfl, rfl⟩ := ret_after.mp hrest
              exact .reserved asked verifier verdict hverified nul hnul hformed
      · simp only [Bool.not_eq_true] at hformed
        simp only [hformed, Bool.not_false, ↓reduceIte] at h
        obtain ⟨rfl, rfl⟩ := ret_after.mp h
        rw [List.append_nil]
        refine .refused asked hverified.asking ?_ _
        intro verified rest verifier' verdict' heq hverified'
        rw [← List.append_nil asked] at heq
        obtain ⟨-, -, rfl, -⟩ := hverified.unique hverified' heq
        exact ⟨nul, hnul, hformed⟩

/-- No verdict was accepted before the verifier was called. -/
theorem unaccepted_of_lookup {asked : Trace} (h : ∀ event ∈ asked, Lookup event.1) :
    Unaccepted cfg req authType rate asked := by
  rintro verified rest verifier verdict rfl
    ⟨verifierConfig, verifyJson, found, outcome, reply, -, -, -, rfl, -⟩
  have hcall := h ⟨verifyCall verifier verifyJson, outcome⟩ (by simp)
  exact absurd hcall id

theorem judge_after {found trace : Trace} {verifier verifyJson : String}
    {verifierConfig : Option Value} {outcome : Outcome} {reply : Value}
    {q : Prog (Except RlnGifterResponse (Option String))}
    (hlookup : lookupField authType cfg.authVerifiers =
      some (verifier, verifierConfig))
    (htext : SerdeJson.structText
      (verifyRequest req authType rate verifierConfig).entries = .ok verifyJson)
    (hfound : ∀ event ∈ found, Lookup event.1)
    (hreply : moduleResult verifyMethod outcome.seen = .ok reply)
    (h : (judge req authType verifier reply).After trace q) :
    AuthRun cfg req authType rate
      (found ++ [⟨verifyCall verifier verifyJson, outcome⟩] ++ trace) q := by
  have hasking : ∀ event ∈ found ++ [⟨verifyCall verifier verifyJson, outcome⟩],
      Asking cfg req authType rate event.1 := by
    intro event hevent
    rcases List.mem_append.mp hevent with hevent | hevent
    · exact Or.inl (hfound event hevent)
    · rw [List.mem_singleton.mp hevent]
      exact Or.inr ⟨verifier, verifierConfig, verifyJson, hlookup, htext, rfl⟩
  cases hverdict : parseVerdict reply with
  | error e =>
      rw [judge, hverdict] at h
      obtain ⟨rfl, rfl⟩ := ret_after.mp h
      rw [List.append_nil]
      refine .refused _ hasking ?_ _
      intro verified rest verifier' verdict heq hverified
      obtain ⟨-, -, -, reply', hreply', hverdict', -⟩ :=
        hverified.of_call hlookup htext hfound heq
      rw [hreply] at hreply'
      cases hreply'
      rw [hverdict] at hverdict'
      cases hverdict'
  | ok verdict =>
      cases hok : verdict.ok with
      | false =>
          simp only [judge, hverdict, hok, Bool.not_false, ↓reduceIte] at h
          obtain ⟨rfl, rfl⟩ := ret_after.mp h
          rw [List.append_nil]
          refine .refused _ hasking ?_ _
          intro verified rest verifier' verdict' heq hverified
          obtain ⟨-, -, -, reply', hreply', hverdict', hok'⟩ :=
            hverified.of_call hlookup htext hfound heq
          rw [hreply] at hreply'
          cases hreply'
          rw [hverdict] at hverdict'
          cases hverdict'
          rw [hok] at hok'
          cases hok'
      | true =>
          simp only [judge, hverdict, hok, Bool.not_true, Bool.false_eq_true,
            ↓reduceIte] at h
          exact reserveVerdict_after ⟨verifierConfig, verifyJson, found, outcome,
            reply, hlookup, htext, hfound, rfl, hreply, hverdict, hok⟩ h

theorem authenticate_after {trace : Trace}
    {q : Prog (Except RlnGifterResponse (Option String))}
    (h : (authenticate cfg req authType rate).After trace q) :
    AuthRun cfg req authType rate trace q := by
  rw [authenticate] at h
  split at h
  · rename_i hempty
    obtain ⟨rfl, rfl⟩ := ret_after.mp h
    exact .opened (List.isEmpty_iff.mp hempty)
  · cases hlookup : lookupField authType cfg.authVerifiers with
    | none =>
        simp only [hlookup] at h
        obtain ⟨rfl, rfl⟩ := ret_after.mp h
        exact .refused [] (by simp) (unaccepted_of_lookup (by simp)) _
    | some entry =>
        obtain ⟨verifier, verifierConfig⟩ := entry
        simp only [hlookup] at h
        cases htext : SerdeJson.structText
            (verifyRequest req authType rate verifierConfig).entries with
        | error e =>
            simp only [htext] at h
            obtain ⟨rfl, rfl⟩ := ret_after.mp h
            exact .refused [] (by simp) (unaccepted_of_lookup (by simp)) _
        | ok verifyJson =>
            simp only [htext] at h
            have hasking : ∀ op, (Lookup op ∨ op = verifyCall verifier verifyJson) →
                Asking cfg req authType rate op := fun op hop =>
              hop.imp_right fun heq =>
                ⟨verifier, verifierConfig, verifyJson, hlookup, htext, heq⟩
            rcases bind_after h with ⟨e, next, hcall, rfl⟩ |
              ⟨first, rest, result, rfl, hcall, hrest⟩
            · obtain ⟨hasked, he⟩ := only_after callModuleJson_worker_only hcall
              exact .asking trace (fun event hevent => hasking _ (hasked event hevent))
                e _ (hasking e he.1)
            · have hasked := (only_after callModuleJson_worker_only hcall).1
              cases result with
              | error e =>
                  obtain ⟨rfl, rfl⟩ := ret_after.mp hrest
                  rw [List.append_nil]
                  refine .refused _
                    (fun event hevent => hasking _ (hasked event hevent)) ?_ _
                  rcases (callModuleJson_worker_after hcall).returned with
                    ⟨hfound, -⟩ | ⟨found, outcome, hfound, rfl, hresult⟩
                  · exact unaccepted_of_lookup hfound
                  · intro verified rest verifier' verdict heq hverified
                    obtain ⟨-, -, -, reply, hreply, -⟩ :=
                      hverified.of_call hlookup htext hfound heq
                    rw [hreply] at hresult
                    cases hresult
              | ok reply =>
                  obtain ⟨found, outcome, hfound, rfl, hreply⟩ :=
                    callModuleJson_worker_ok hcall
                  exact judge_after hlookup htext hfound hreply hrest

/-- A request that got past authentication: the gifter is open, the verdict has no
nullifier, or the key of its nullifier was reserved. -/
theorem authenticate_ok {asked : Trace} {key : Option String}
    (h : (authenticate cfg req authType rate).After asked (.ret (.ok key))) :
    (cfg.authVerifiers = [] ∧ asked = [] ∧ key = none) ∨
      (∃ verifier verdict, Verified cfg req authType rate asked verifier verdict ∧
        verdict.nullifier = none ∧ key = none) ∨
      ∃ verified verifier verdict nul,
        Verified cfg req authType rate verified verifier verdict ∧
        verdict.nullifier = some nul ∧ wellFormed (normalize nul) = true ∧
        asked = verified ++ [⟨.reserve (replayKey authType (normalize nul)), false⟩] ∧
        key = some (replayKey authType (normalize nul)) := by
  generalize hq : (Program.ret (.ok key) :
    Prog (Except RlnGifterResponse (Option String))) = q at h
  cases authenticate_after h with
  | opened hopen =>
      cases hq
      exact Or.inl ⟨hopen, rfl, rfl⟩
  | asking => cases hq
  | refused => cases hq
  | accepted _ verifier verdict hverified hnul =>
      cases hq
      exact Or.inr (Or.inl ⟨verifier, verdict, hverified, hnul, rfl⟩)
  | reserving => cases hq
  | used => cases hq
  | reserved verified verifier verdict hverified nul hnul hformed =>
      cases hq
      exact Or.inr (Or.inr ⟨verified, verifier, verdict, nul, hverified, hnul, hformed,
        rfl, rfl⟩)

end Authenticate

section Handle

/-- What is done with the reservation once `register` has returned. -/
def settleOp (cfg : ServerCfg) (key : Option String) :
    Except RegisterError MembershipAllocationSuccess → Option Op
  | .error (.notSubmitted _) => key.map Op.release
  | _ => if cfg.nullifiersPath = "" then none else key.map (.append cfg.nullifiersPath)

/-- The response of a request that got as far as `register`. -/
def settleResponse (req : RlnGifterRequest) :
    Except RegisterError MembershipAllocationSuccess → RlnGifterResponse
  | .ok success =>
      { requestId := req.requestId, authSuccess := true, success := some success }
  | .error e =>
      { requestId := req.requestId, authSuccess := true, failure := some ⟨e.message⟩ }

theorem settle_eq (cfg : ServerCfg) (req : RlnGifterRequest) (key : Option String)
    (r : Except RegisterError MembershipAllocationSuccess) :
    settle cfg req key r =
      match settleOp cfg key r with
      | none => .ret (settleResponse req r)
      | some e => .op e fun _ => .ret (settleResponse req r) := by
  rcases r with (msg | msg) | success <;> cases key <;>
    by_cases hpath : cfg.nullifiersPath = "" <;>
      simp [settle, settleOp, settleResponse, appendNullifier, hpath]

theorem settle_after {cfg : ServerCfg} {req : RlnGifterRequest} {key : Option String}
    {r : Except RegisterError MembershipAllocationSuccess} {trace : Trace}
    {q : Prog RlnGifterResponse} (h : (settle cfg req key r).After trace q) :
    (trace = [] ∧ ((settleOp cfg key r = none ∧ q = .ret (settleResponse req r)) ∨
        ∃ e next, settleOp cfg key r = some e ∧ q = .op e next)) ∨
      ∃ e answer, settleOp cfg key r = some e ∧ trace = [⟨e, answer⟩] ∧
        q = .ret (settleResponse req r) := by
  rw [settle_eq] at h
  cases hop : settleOp cfg key r with
  | none =>
      rw [hop] at h
      obtain ⟨rfl, rfl⟩ := ret_after.mp h
      exact Or.inl ⟨rfl, Or.inl ⟨rfl, rfl⟩⟩
  | some e =>
      rw [hop] at h
      rcases op_after.mp h with ⟨rfl, rfl⟩ | ⟨answer, rest, rfl, hrest⟩
      · exact Or.inl ⟨rfl, Or.inr ⟨e, _, rfl, rfl⟩⟩
      · obtain ⟨rfl, rfl⟩ := ret_after.mp hrest
        exact Or.inr ⟨e, answer, rfl, rfl, rfl⟩

/-- What settling does to the store concerns the reserved key. -/
theorem settleOp_cases {cfg : ServerCfg} {key : Option String} {e : Op}
    {r : Except RegisterError MembershipAllocationSuccess}
    (h : settleOp cfg key r = some e) :
    ∃ k, key = some k ∧
      ((e = .release k ∧ ∃ msg, r = .error (.notSubmitted msg)) ∨
        e = .append cfg.nullifiersPath k ∧ cfg.nullifiersPath ≠ "" ∧
          ∀ msg, r ≠ .error (.notSubmitted msg)) := by
  rcases r with (msg | msg) | success
  · obtain ⟨k, rfl, rfl⟩ := Option.map_eq_some_iff.mp h
    exact ⟨k, rfl, Or.inl ⟨rfl, msg, rfl⟩⟩
  · rw [settleOp] at h
    · split at h
      · cases h
      · rename_i hpath
        obtain ⟨k, rfl, rfl⟩ := Option.map_eq_some_iff.mp h
        exact ⟨k, rfl, Or.inr ⟨rfl, hpath, by simp⟩⟩
    · simp
  · rw [settleOp] at h
    · split at h
      · cases h
      · rename_i hpath
        obtain ⟨k, rfl, rfl⟩ := Option.map_eq_some_iff.mp h
        exact ⟨k, rfl, Or.inr ⟨rfl, hpath, by simp⟩⟩
    · simp

/-- A reservation that is not rolled back is appended, where there is a file. -/
theorem settleOp_kept {cfg : ServerCfg} {key : String}
    {r : Except RegisterError MembershipAllocationSuccess}
    (hpath : cfg.nullifiersPath ≠ "") (hr : ∀ msg, r ≠ .error (.notSubmitted msg)) :
    settleOp cfg (some key) r = some (.append cfg.nullifiersPath key) := by
  rcases r with (msg | msg) | success
  · exact absurd rfl (hr msg)
  · simp [settleOp, hpath]
  · simp [settleOp, hpath]

variable [SerdeJson] [CaseTables]

/-- The type a request is judged under. -/
def authTypeOf (req : RlnGifterRequest) : String :=
  fromUtf8Lossy req.authenticationType

/-- `authenticate` as `handle_request` runs it. -/
abbrev authenticateRequest (cfg : ServerCfg) (req : RlnGifterRequest) :
    Prog (Except RlnGifterResponse (Option String)) :=
  authenticate cfg req (authTypeOf req) (effectiveRate cfg req)

/-- `register` as `handle_request` runs it. -/
abbrev registerRequest (cfg : ServerCfg) (req : RlnGifterRequest) :
    Prog (Except RegisterError MembershipAllocationSuccess) :=
  register cfg req.identityCommitment (effectiveRate cfg req)

/-- A request that `handle_request` takes up. -/
structure Admitted (buf : List UInt8) (req : RlnGifterRequest) : Prop where
  decoded : RlnGifterRequest.decode buf = .ok req
  length : req.identityCommitment.length = 32

/-- The runs of `handle_request`. -/
inductive HandleRun (buf : List UInt8) : Trace → Prog RlnGifterResponse → Prop where
  | malformed (e : String) (hdecode : RlnGifterRequest.decode buf = .error e) :
      HandleRun buf [] (.ret (failureResponse "N/A" false ("decode error: " ++ e)))
  | missized (req : RlnGifterRequest) (hdecode : RlnGifterRequest.decode buf = .ok req)
      (hlength : req.identityCommitment.length ≠ 32) :
      HandleRun buf [] (.ret (failureResponse req.requestId true
        "identity_commitment must be 32 bytes"))
  | starting (req : RlnGifterRequest) (hreq : Admitted buf req)
      (next : Answer .lockServer → Prog RlnGifterResponse) :
      HandleRun buf [] (.op .lockServer next)
  | unconfigured (req : RlnGifterRequest) (hreq : Admitted buf req) :
      HandleRun buf [⟨.lockServer, none⟩]
        (.ret (failureResponse req.requestId true "gifter not configured"))
  | authenticating (req : RlnGifterRequest) (hreq : Admitted buf req)
      (cfg : ServerCfg) (asked : Trace) (e : Op)
      (next : Answer e → Prog (Except RlnGifterResponse (Option String)))
      (hauth : (authenticateRequest cfg req).After asked (.op e next))
      (next' : Answer e → Prog RlnGifterResponse) :
      HandleRun buf (⟨.lockServer, some cfg⟩ :: asked) (.op e next')
  | refused (req : RlnGifterRequest) (hreq : Admitted buf req) (cfg : ServerCfg)
      (asked : Trace) (response : RlnGifterResponse)
      (hauth : (authenticateRequest cfg req).After asked (.ret (.error response))) :
      HandleRun buf (⟨.lockServer, some cfg⟩ :: asked) (.ret response)
  | registering (req : RlnGifterRequest) (hreq : Admitted buf req) (cfg : ServerCfg)
      (asked : Trace) (key : Option String)
      (hauth : (authenticateRequest cfg req).After asked (.ret (.ok key)))
      (called : Trace) (e : Op)
      (next : Answer e → Prog (Except RegisterError MembershipAllocationSuccess))
      (hregister : (registerRequest cfg req).After called (.op e next))
      (next' : Answer e → Prog RlnGifterResponse) :
      HandleRun buf (⟨.lockServer, some cfg⟩ :: (asked ++ called)) (.op e next')
  | settling (req : RlnGifterRequest) (hreq : Admitted buf req) (cfg : ServerCfg)
      (asked : Trace) (key : Option String)
      (hauth : (authenticateRequest cfg req).After asked (.ret (.ok key)))
      (called : Trace) (r : Except RegisterError MembershipAllocationSuccess)
      (hregister : (registerRequest cfg req).After called (.ret r))
      (last : Trace) (q : Prog RlnGifterResponse)
      (hsettle : (settle cfg req key r).After last q) :
      HandleRun buf (⟨.lockServer, some cfg⟩ :: (asked ++ (called ++ last))) q

theorem handleRequest_after {buf : List UInt8} {trace : Trace}
    {q : Prog RlnGifterResponse} (h : (handleRequest buf).After trace q) :
    HandleRun buf trace q := by
  rw [handleRequest] at h
  cases hdecode : RlnGifterRequest.decode buf with
  | error e =>
      rw [hdecode] at h
      obtain ⟨rfl, rfl⟩ := ret_after.mp h
      exact .malformed e hdecode
  | ok req =>
      simp only [hdecode] at h
      by_cases hlength : req.identityCommitment.length = 32
      · have hreq : Admitted buf req := ⟨hdecode, hlength⟩
        simp only [hlength, ne_eq, not_true_eq_false, ↓reduceIte, perform_bind] at h
        rcases op_after.mp h with ⟨rfl, rfl⟩ | ⟨server, rest, rfl, hrest⟩
        · exact .starting req hreq _
        · cases server with
          | none =>
              obtain ⟨rfl, rfl⟩ := ret_after.mp hrest
              exact .unconfigured req hreq
          | some cfg =>
              rcases bind_after hrest with ⟨e, next, hauth, rfl⟩ |
                ⟨asked, rest', result, rfl, hauth, hrest'⟩
              · exact .authenticating req hreq cfg rest e next hauth _
              · cases result with
                | error response =>
                    obtain ⟨rfl, rfl⟩ := ret_after.mp hrest'
                    rw [List.append_nil]
                    exact .refused req hreq cfg asked response hauth
                | ok key =>
                    rcases bind_after hrest' with ⟨e, next, hregister, rfl⟩ |
                      ⟨called, last, r, rfl, hregister, hsettle⟩
                    · exact .registering req hreq cfg asked key hauth rest' e next
                        hregister _
                    · exact .settling req hreq cfg asked key hauth called r hregister
                        last q hsettle
      · simp only [hlength, ne_eq, not_false_eq_true, ↓reduceIte] at h
        obtain ⟨rfl, rfl⟩ := ret_after.mp h
        exact .missized req hdecode hlength

end Handle

end RlnGifter
