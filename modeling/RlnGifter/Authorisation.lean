/-
No registration without authorisation.  A request reads its configuration once
and calls `register_member` once at most, and what it registers is what the
verifier of that configuration accepted, with the verdict's nullifier reserved.
-/
import RlnGifter.Replay

namespace RlnGifter

open Program

section Calls

variable [SerdeJson]

theorem Polling.not_register {cfg : ServerCfg} {idc : List UInt8} {e : Op}
    (h : Polling cfg idc e) : ¬ IsRegisterMember e := by
  rcases h with h | rfl | rfl
  · exact h.not_register
  · rintro ⟨-, hmethod⟩
    exact absurd hmethod (by decide)
  · exact id

/-- `register` has not called yet, or has called once. -/
theorem register_call {cfg : ServerCfg} {idc : List UInt8} {rate : UInt64}
    {called : Trace} {q : Prog (Except RegisterError MembershipAllocationSuccess)}
    (h : (register cfg idc rate).After called q) :
    (∀ event ∈ called, Lookup event.1) ∨
      ∃ (found : Trace) (outcome : Outcome) (polls : Trace),
        called = found ++ ⟨registerCall cfg idc rate, outcome⟩ :: polls ∧
        (∀ event ∈ found, Lookup event.1) ∧ ∀ event ∈ polls, Polling cfg idc event.1 := by
  cases register_after h with
  | calling _ hfound => exact Or.inl hfound
  | unsent _ hfound => exact Or.inl hfound
  | failed found hfound outcome => exact Or.inr ⟨found, outcome, [], rfl, hfound, by simp⟩
  | confirming found hfound outcome _ _ polls hpolls =>
      exact Or.inr ⟨found, outcome, polls, by simp, hfound, hpolls⟩
  | settled found hfound outcome _ _ polls hpolls =>
      exact Or.inr ⟨found, outcome, polls, by simp, hfound, hpolls⟩

omit [SerdeJson] in
theorem effectiveRate_eq_min (cfg : ServerCfg) (req : RlnGifterRequest) :
    (effectiveRate cfg req).toNat =
      min (req.rateLimit.getD defaultMaxRate).toNat cfg.maxRateLimit.toNat := by
  rw [effectiveRate]
  split
  · rename_i hlt
    rw [Nat.min_eq_right (Nat.le_of_lt (UInt64.lt_iff_toNat_lt.mp hlt))]
  · rename_i hge
    rw [Nat.min_eq_left (Nat.le_of_not_lt fun h => hge (UInt64.lt_iff_toNat_lt.mpr h))]

variable [CaseTables]

/-- A call of `register_member` between what a request did `before` and `after` it,
under the configuration it read: the call registers the request's commitment at
the capped rate, nothing else of the trace registers or reads a configuration,
and unless the gifter is open the verifier accepted the same before. -/
structure CallUnder (cfg : ServerCfg) (req : RlnGifterRequest) (before : Trace)
    (call : Op) (after : Trace) : Prop where
  call : call = registerCall cfg req.identityCommitment (effectiveRate cfg req)
  rate : (effectiveRate cfg req).toNat =
    min (req.rateLimit.getD defaultMaxRate).toNat cfg.maxRateLimit.toNat
  once : ∀ event ∈ before ++ after, ¬ IsRegisterMember event.1
  read : ∃ asked, before = ⟨.lockServer, some cfg⟩ :: asked ∧
    ∀ event ∈ asked ++ after, event.1 ≠ .lockServer
  path : ∀ path key written, ⟨.append path key, written⟩ ∈ before ++ after →
    path = cfg.nullifiersPath
  verdict : cfg.authVerifiers ≠ [] → ∃ verified more verifier verdict,
    before = ⟨.lockServer, some cfg⟩ :: (verified ++ more) ∧
    Verified cfg req (authTypeOf req) (effectiveRate cfg req) verified verifier verdict ∧
    ∀ nul, verdict.nullifier = some nul → wellFormed (normalize nul) = true ∧
      ⟨.reserve (replayKey (authTypeOf req) (normalize nul)), false⟩ ∈ more

/-- A request past authentication holds the verdict it was let through by. -/
theorem authenticated_verdict {cfg : ServerCfg} {req : RlnGifterRequest} {asked : Trace}
    {key : Option String} (h : (authenticateRequest cfg req).After asked (.ret (.ok key)))
    (hopen : cfg.authVerifiers ≠ []) : ∃ verified more verifier verdict,
      asked = verified ++ more ∧
      Verified cfg req (authTypeOf req) (effectiveRate cfg req) verified verifier verdict ∧
      ∀ nul, verdict.nullifier = some nul → wellFormed (normalize nul) = true ∧
        ⟨.reserve (replayKey (authTypeOf req) (normalize nul)), false⟩ ∈ more := by
  rcases authenticate_ok h with ⟨hempty, -⟩ | ⟨verifier, verdict, hverified, hnone, -⟩ |
    ⟨verified, verifier, verdict, nul, hverified, hnul, hformed, rfl, -⟩
  · exact absurd hempty hopen
  · refine ⟨asked, [], verifier, verdict, (List.append_nil _).symm, hverified, ?_⟩
    intro nul hnul
    rw [hnone] at hnul
    cases hnul
  · refine ⟨verified, _, verifier, verdict, rfl, hverified, ?_⟩
    intro nul' hnul'
    rw [hnul] at hnul'
    cases hnul'
    exact ⟨hformed, List.mem_singleton_self _⟩

/-- A request reads its configuration first, and not again. -/
theorem Registering.read_once {buf : List UInt8} {trace : Trace} {req : RlnGifterRequest}
    {cfg : ServerCfg} {asked called last : Trace}
    (h : Registering buf trace req cfg asked called last) :
    ∀ event ∈ asked ++ (called ++ last), event.1 ≠ .lockServer := by
  obtain ⟨key, hauth⟩ := h.authorised
  obtain ⟨q, hregister⟩ := h.registering
  intro event hevent hlock
  simp only [List.mem_append] at hevent
  rcases hevent with hevent | hevent | hevent
  · rcases authenticate_events hauth event hevent with (hasking | ⟨_, _, _, _, _, heq⟩) |
      ⟨_, heq⟩
    · rw [hlock] at hasking
      exact hasking
    · cases hlock.symm.trans heq
    · cases hlock.symm.trans heq
  · rcases (only_after register_only hregister).1 event hevent with
      (hlookup | heq | heq) | heq
    · rw [hlock] at hlookup
      exact hlookup
    · cases hlock.symm.trans heq
    · cases hlock.symm.trans heq
    · cases hlock.symm.trans heq
  · obtain ⟨key, heq | heq⟩ := h.settling event hevent
    · cases hlock.symm.trans heq
    · cases hlock.symm.trans heq

/-- What settles a reservation does not register. -/
theorem Registering.last_not_register {buf : List UInt8} {trace : Trace}
    {req : RlnGifterRequest} {cfg : ServerCfg} {asked called last : Trace}
    (h : Registering buf trace req cfg asked called last) :
    ∀ event ∈ last, ¬ IsRegisterMember event.1 := by
  intro event hevent
  obtain ⟨k, heq | heq⟩ := h.settling event hevent
  · rw [heq]
    exact id
  · rw [heq]
    exact id

/-- The one call of `register_member` is the one `register` makes, between what it finds
and what it polls. -/
theorem Registering.sole_call {buf : List UInt8} {trace : Trace} {req : RlnGifterRequest}
    {cfg : ServerCfg} {asked called last before after : Trace} {call : Op}
    {answer : Answer call} (h : Registering buf trace req cfg asked called last)
    (htrace : trace = before ++ ⟨call, answer⟩ :: after) (hcall : IsRegisterMember call) :
    call = registerCall cfg req.identityCommitment (effectiveRate cfg req) ∧
      (∀ event ∈ before ++ after, ¬ IsRegisterMember event.1) ∧
      ∃ found polls, before = ⟨.lockServer, some cfg⟩ :: (asked ++ found) ∧
        called = found ++ ⟨call, answer⟩ :: polls ∧ after = polls ++ last := by
  obtain ⟨key, hauth⟩ := h.authorised
  obtain ⟨p, hregister⟩ := h.registering
  have hmem : (⟨call, answer⟩ : Event Answer) ∈
      (⟨.lockServer, some cfg⟩ :: asked) ++ (called ++ last) := by
    rw [List.cons_append, ← h.trace, htrace]
    simp
  rcases register_call hregister with hnone | ⟨found, outcome, polls, rfl, hfound, hpolls⟩
  · rw [List.mem_append, List.mem_append] at hmem
    rcases hmem with hmem | hmem | hmem
    · exact absurd hcall (locked_not_register hauth _ hmem)
    · exact absurd hcall ((hnone _ hmem).not_register)
    · exact absurd hcall (h.last_not_register _ hmem)
  · have hsplit : before ++ ⟨call, answer⟩ :: after =
        (⟨.lockServer, some cfg⟩ :: (asked ++ found)) ++
          ⟨registerCall cfg req.identityCommitment (effectiveRate cfg req), outcome⟩ ::
            (polls ++ last) := by
      rw [← htrace, h.trace]
      simp
    have hleft : ∀ event ∈ (⟨.lockServer, some cfg⟩ :: (asked ++ found) : Trace),
        ¬ IsRegisterMember event.1 := by
      intro event hevent
      rw [← List.cons_append, List.mem_append] at hevent
      exact hevent.elim (locked_not_register hauth event) fun h =>
        (hfound event h).not_register
    have hright : ∀ event ∈ polls ++ last, ¬ IsRegisterMember event.1 := by
      intro event hevent
      rw [List.mem_append] at hevent
      exact hevent.elim (fun h => (hpolls event h).not_register) (h.last_not_register event)
    obtain ⟨rfl, hevent, rfl⟩ := cut_sole hleft hright (not_not.mpr hcall) hsplit
    refine ⟨(Sigma.mk.inj_iff.mp hevent).1, ?_, found, polls, rfl, ?_, rfl⟩
    · intro event hevent
      exact (List.mem_append.mp hevent).elim (hleft event) (hright event)
    · rw [hevent]

/-- What surrounds the call of `register_member` in a trace. -/
theorem Registering.callUnder {buf : List UInt8} {trace : Trace} {req : RlnGifterRequest}
    {cfg : ServerCfg} {asked called last before after : Trace} {call : Op}
    {answer : Answer call} {q : Prog RlnGifterResponse} (hrun : HandleRun buf trace q)
    (h : Registering buf trace req cfg asked called last)
    (htrace : trace = before ++ ⟨call, answer⟩ :: after) (hcall : IsRegisterMember call) :
    CallUnder cfg req before call after := by
  obtain ⟨key, hauth⟩ := h.authorised
  obtain ⟨heq, honce, found, polls, rfl, rfl, rfl⟩ := h.sole_call htrace hcall
  constructor
  · exact heq
  · exact effectiveRate_eq_min cfg req
  · exact honce
  · refine ⟨asked ++ found, rfl, ?_⟩
    intro event hevent
    apply h.read_once event
    simp only [List.mem_append, List.mem_cons] at hevent ⊢
    tauto
  · intro path k written hmem
    have happended : ⟨.append path k, written⟩ ∈ trace := by
      rw [htrace]
      simp only [List.mem_append, List.mem_cons] at hmem ⊢
      tauto
    obtain ⟨-, cfg', asked', called', -, htrace', -, rfl⟩ := hrun.appended happended
    obtain ⟨hhead, -⟩ := List.cons.inj (h.trace.symm.trans htrace')
    cases hhead
    rfl
  · intro hopen
    obtain ⟨verified, more, verifier, verdict, rfl, hverified, hnul⟩ :=
      authenticated_verdict hauth hopen
    refine ⟨verified, more ++ found, verifier, verdict, by simp, hverified, ?_⟩
    intro nul hnul'
    exact ⟨(hnul nul hnul').1, List.mem_append_left _ (hnul nul hnul').2⟩

/-- No registration without authorisation, under one configuration: whatever other
requests and calls of `serve` do in between, a request that calls `register_member`
does so once, under the configuration it read, and what it reserved before was not
in the store and was put there. -/
theorem registers_authorised (s : Shared) (actions : List (Action Task Env)) {id : Nat}
    {th : GifterThread} {buf : List UInt8} {before after : Trace} {call : Op}
    {answer : Answer call}
    (hth : (gifter.run (Pool.initial s) actions).threads id = some th)
    (htask : th.task = .handle buf) (htrace : th.trace = before ++ ⟨call, answer⟩ :: after)
    (hcall : IsRegisterMember call) :
    (∃ req cfg, Admitted buf req ∧ CallUnder cfg req before call after) ∧
      ∀ key, ⟨.reserve key, false⟩ ∈ before → ∃ past action future,
        actions = past ++ action :: future ∧
        gifter.performed (gifter.run (Pool.initial s) past) action =
          some (id, ⟨.reserve key, false⟩) ∧
        ¬ IsConsumed (gifter.run (Pool.initial s) past).shared.consumed key ∧
        IsConsumed (gifter.run (Pool.initial s) (past ++ [action])).shared.consumed key := by
  obtain ⟨q, hrun, -⟩ := handle_thread (gifter.wellTraced_run s actions) hth htask
  constructor
  · rcases hrun.registering_cases with hnone | ⟨req, cfg, asked, called, last, hregistering⟩
    · have hmem : (⟨call, answer⟩ : Event Answer) ∈ th.trace := by
        rw [htrace]
        simp
      exact absurd hcall (hnone _ hmem)
    · exact ⟨req, cfg, hregistering.admitted, hregistering.callUnder hrun htrace hcall⟩
  · intro key hmem
    have hreserved : ⟨.reserve key, false⟩ ∈ th.trace := by
      rw [htrace]
      exact List.mem_append_left _ hmem
    obtain ⟨past, action, future, hactions, hperformed⟩ :=
      gifter.exists_performed hth hreserved
    obtain ⟨env, found, e, next, rfl, -, -, -, hevent, hstep⟩ :=
      gifter.performed_cases hperformed
    obtain ⟨hfresh, hconsumed⟩ := exec_reserved hevent.symm
    refine ⟨past, _, future, hactions, hperformed, hfresh, ?_⟩
    rw [gifter.run_append, gifter.run_cons, gifter.run_nil, hstep]
    exact hconsumed

end Calls

open Platform in
/-- A voucher that is granted is registered as it was authorised. -/
theorem registers_authorised_voucher :
    ∃ th before call answer after, (gifter.run (Pool.initial {})
        (bootVouchers 0 "used" "voucher" ++ granting 2 "voucher" "A1")).threads 2 = some th ∧
      th.trace = before ++ (⟨call, answer⟩ : Event Answer) :: after ∧ IsRegisterMember call ∧
      ∃ req cfg, Admitted (requestOf "voucher").encode req ∧
        CallUnder cfg req before call after := by
  obtain ⟨B, trace, hboot, hgrants⟩ := run_granted "used" "voucher" "A1"
    (by decide +kernel) (by decide +kernel) (by decide)
  obtain ⟨response, hthread, -⟩ := hgrants.thread
  obtain ⟨args, timeoutMs, outcome, reply, hcall, -⟩ := hgrants.accepted
  obtain ⟨before, after, htrace⟩ := List.append_of_mem hcall
  exact ⟨_, before, _, outcome, after, hthread, htrace, ⟨rfl, rfl⟩,
    (registers_authorised {} _ hthread rfl htrace ⟨rfl, rfl⟩).1⟩

end RlnGifter
