/-
Replay protection within one process: a reserved key has a single holder, only
its holder takes it out of the store, and so a credential buys at most one
membership.
-/
import RlnGifter.Alone
import RlnGifter.Platform

namespace RlnGifter

open Program

/-- The thread of this trace reserved `key` and has not rolled it back. -/
def Holds (trace : Trace) (key : String) : Prop :=
  ⟨.reserve key, false⟩ ∈ trace ∧ ⟨.release key, ()⟩ ∉ trace

/-- Held keys are in the store of their process, and each has one holder. -/
structure Exclusive (P : GifterPool) : Prop where
  consumed : ∀ id th key, P.threads id = some th → th.epoch = P.epoch →
    Holds th.trace key → IsConsumed P.shared.consumed key
  unique : ∀ i j thi thj key, P.threads i = some thi → P.threads j = some thj →
    thi.epoch = thj.epoch → Holds thi.trace key → Holds thj.trace key → i = j

/-- Only the holder of a key is about to roll it back. -/
theorem holds_of_release {trace : Trace} {key : String}
    (h : StorePhase (storeEvents trace) (some (.release key))) : Holds trace key := by
  have hevents := h.of_release
  constructor
  · rw [← mem_storeEvents rfl, hevents]
    exact List.mem_singleton_self _
  · rw [← mem_storeEvents rfl, hevents]
    simp

theorem holds_concat {trace : Trace} {event : Event Answer} {key : String}
    (h : Holds (trace ++ [event]) key) :
    (Holds trace key ∧ event ≠ ⟨.release key, ()⟩) ∨
      event = ⟨.reserve key, false⟩ := by
  obtain ⟨hreserve, hrelease⟩ := h
  rw [List.mem_append, List.mem_singleton] at hreserve hrelease
  rcases hreserve with hreserve | hevent
  · exact Or.inl ⟨⟨hreserve, fun h => hrelease (Or.inl h)⟩,
      fun h => hrelease (Or.inr h.symm)⟩
  · exact Or.inr hevent.symm

theorem exclusive_initial (s : Shared) : Exclusive (Pool.initial s) := by
  constructor
  · intro id th key hth
    cases hth
  · intro i j thi thj key hthi
    cases hthi

section Exec

variable [CaseTables]

/-- Only a rollback takes a key out of the store. -/
theorem isConsumed_exec {env : Env} {s : Shared} {e : Op} {key : String}
    (hne : e ≠ .release key) (h : IsConsumed s.consumed key) :
    IsConsumed (execOp env s e).2.consumed key := by
  cases e with
  | reserve nul => exact isConsumed_reserve.mpr (Or.inr h)
  | release nul =>
      refine isConsumed_release.mpr ⟨?_, h⟩
      rintro rfl
      exact hne rfl
  | merge path => exact isConsumed_merge.mpr (Or.inl h)
  | append path nul =>
      rw [execOp]
      split <;> exact h
  | createClient target =>
      rw [execOp]
      split <;> exact h
  | _ => exact h

/-- A fresh reservation was not in the store, and is in it now. -/
theorem exec_reserved {env : Env} {s : Shared} {e : Op} {key : String}
    (h : (⟨e, (execOp env s e).1⟩ : Event Answer) = ⟨.reserve key, false⟩) :
    ¬ IsConsumed s.consumed key ∧ IsConsumed (execOp env s e).2.consumed key := by
  obtain ⟨rfl, hanswer⟩ := Sigma.mk.inj_iff.mp h
  have hfresh : (reserveNullifier s.consumed key).1 = false := eq_of_heq hanswer
  constructor
  · intro hconsumed
    rw [reserveNullifier_fst.mpr hconsumed] at hfresh
    cases hfresh
  · exact isConsumed_reserve.mpr (Or.inl rfl)

theorem exec_server (env : Env) (s : Shared) (e : Op) :
    (execOp env s e).2.server = s.server ∨
      ∃ cfg, e = .storeServer cfg ∧ (execOp env s e).2.server = some cfg := by
  cases e with
  | storeServer cfg => exact Or.inr ⟨cfg, rfl, rfl⟩
  | append path nul =>
      left
      rw [execOp]
      split <;> rfl
  | createClient target =>
      left
      rw [execOp]
      split <;> rfl
  | _ => exact Or.inl rfl

theorem exec_locked {env : Env} {s : Shared} {e : Op} {server : Option ServerCfg}
    (h : (⟨e, (execOp env s e).1⟩ : Event Answer) = ⟨.lockServer, server⟩) :
    s.server = server := by
  obtain ⟨rfl, hanswer⟩ := Sigma.mk.inj_iff.mp h
  exact eq_of_heq hanswer

end Exec

section Runs

variable [SerdeJson] [CaseTables]

theorem exclusive_act {P : GifterPool} (hP : Exclusive P)
    (htraced : gifter.WellTraced P) {id : Nat} {th : GifterThread} {e : Op}
    {next : Answer e → Prog Finished} (env : Env) (hth : P.threads id = some th)
    (hepoch : th.epoch = P.epoch) (hprog : th.prog = .op e next) :
    Exclusive (actPool P id th e next env) := by
  have hphase := thread_storePhase htraced hth
  rw [hprog, pending_op] at hphase
  constructor
  · intro other found key hfound hlive hholds
    rcases System.put_threads hfound with ⟨rfl, rfl⟩ | ⟨hne, hold⟩
    · rcases holds_concat hholds with ⟨hheld, hevent⟩ | hevent
      · apply isConsumed_exec _ (hP.consumed other th key hth hepoch hheld)
        rintro rfl
        exact hevent rfl
      · exact (exec_reserved hevent).2
    · apply isConsumed_exec _ (hP.consumed other found key hold hlive hholds)
      rintro rfl
      exact hne (hP.unique other id found th key hold hth (hlive.trans hepoch.symm)
        hholds (holds_of_release hphase))
  · intro i j thi thj key hthi hthj hsame hholdi hholdj
    -- a fresh reservation meets no other holder: the key would be in the store
    have hfresh : ∀ {k : Nat} {found : GifterThread}, k ≠ id →
        P.threads k = some found → th.epoch = found.epoch →
        Holds found.trace key → Holds (th.trace ++ [⟨e, (execOp env P.shared e).1⟩]) key →
        Holds th.trace key := by
      intro k found _ hfound hepoch' hheld hnew
      rcases holds_concat hnew with ⟨hold, -⟩ | hevent
      · exact hold
      · exact absurd (hP.consumed k found key hfound (hepoch'.symm.trans hepoch) hheld)
          (exec_reserved hevent).1
    rcases System.put_threads hthi with ⟨rfl, rfl⟩ | ⟨hnei, holdi⟩
    · rcases System.put_threads hthj with ⟨rfl, rfl⟩ | ⟨hnej, holdj⟩
      · rfl
      · exact hP.unique i j th thj key hth holdj hsame
          (hfresh hnej holdj hsame hholdj hholdi) hholdj
    · rcases System.put_threads hthj with ⟨rfl, rfl⟩ | ⟨hnej, holdj⟩
      · exact hP.unique i j thi th key holdi hth hsame hholdi
          (hfresh hnei holdi hsame.symm hholdi hholdj)
      · exact hP.unique i j thi thj key holdi holdj hsame hholdi hholdj

theorem exclusive_step {P : GifterPool} (hP : Exclusive P)
    (htraced : gifter.WellTraced P) (action : Action Task Env) :
    Exclusive (gifter.step P action) := by
  rcases gifter.step_cases P action with h | ⟨id, task, -, -, h⟩ |
    ⟨id, env, th, e, next, -, hth, hepoch, hprog, h⟩ | ⟨-, h⟩
  · rwa [h]
  · rw [h]
    have hnone : ∀ key, ¬ Holds (gifter.start P task).trace key := by
      rintro key ⟨hmem, -⟩
      cases hmem
    constructor
    · intro other found key hfound hlive hholds
      rcases System.put_threads hfound with ⟨-, rfl⟩ | ⟨-, hold⟩
      · exact absurd hholds (hnone key)
      · exact hP.consumed other found key hold hlive hholds
    · intro i j thi thj key hthi hthj hsame hholdi hholdj
      rcases System.put_threads hthi with ⟨-, rfl⟩ | ⟨-, holdi⟩
      · exact absurd hholdi (hnone key)
      · rcases System.put_threads hthj with ⟨-, rfl⟩ | ⟨-, holdj⟩
        · exact absurd hholdj (hnone key)
        · exact hP.unique i j thi thj key holdi holdj hsame hholdi hholdj
  · rw [h]
    exact exclusive_act hP htraced env hth hepoch hprog
  · rw [h]
    constructor
    · intro id th key hth hlive
      -- every thread is from an earlier process
      have hle := (htraced id th hth).2
      change th.epoch = P.epoch + 1 at hlive
      omega
    · exact hP.unique

theorem exclusive_run (s : Shared) (actions : List (Action Task Env)) :
    Exclusive (gifter.run (Pool.initial s) actions) := by
  have hboth := gifter.run_invariant (fun P => Exclusive P ∧ gifter.WellTraced P)
    (fun P action h => ⟨exclusive_step h.1 h.2 action, gifter.wellTraced_step h.2 action⟩)
    actions ⟨exclusive_initial s, gifter.wellTraced_initial s⟩
  exact hboth.1

/-- What a thread that handles a request has done. -/
theorem handle_thread {P : GifterPool} (hP : gifter.WellTraced P) {id : Nat}
    {th : GifterThread} {buf : List UInt8} (hth : P.threads id = some th)
    (htask : th.task = .handle buf) :
    ∃ q, HandleRun buf th.trace q ∧ q.pending = th.prog.pending ∧
      ∀ finished, th.prog = .ret finished →
        ∃ response, q = .ret response ∧ finished = .responded response := by
  have hafter := (hP id th hth).1
  rw [htask] at hafter
  exact handle_body_after hafter

/-- A granted request holds the key it carries. -/
theorem Granted.holds {buf : List UInt8} {trace : Trace} {q : Prog RlnGifterResponse}
    {key : String} (hgranted : Granted buf trace) (hrun : HandleRun buf trace q)
    (hcarries : Carries buf trace key) : Holds trace key := by
  obtain ⟨r, hreturned, hr⟩ := hgranted
  refine ⟨hcarries.reserved hreturned.authorised, ?_⟩
  intro hreleased
  obtain ⟨req, cfg, asked, called, msg, hreq, htrace, hauth, hregister⟩ :=
    hrun.released hreleased
  obtain ⟨req', cfg', asked', called', last, key', hreq', htrace', hauth',
    hregister'⟩ := hreturned
  rw [htrace] at htrace'
  obtain ⟨rfl, rfl, htail⟩ := hreq.same hreq' htrace'
  obtain ⟨-, -, htail'⟩ := after_ret_unique hauth hauth' htail
  obtain ⟨-, rfl, -⟩ := after_ret_unique hregister hregister' htail'
  exact hr msg rfl

/-- At most one membership per credential in a process lifetime: of the requests
of one process that carry a key at most one is granted, and every other one that
ends does so without a call of `register_member` or as `NotSubmitted`. -/
theorem at_most_one_granted (s : Shared) (actions : List (Action Task Env))
    {i j : Nat} {thi thj : GifterThread} {bufi bufj : List UInt8} {key : String}
    (hthi : (gifter.run (Pool.initial s) actions).threads i = some thi)
    (hthj : (gifter.run (Pool.initial s) actions).threads j = some thj)
    (htaski : thi.task = .handle bufi) (htaskj : thj.task = .handle bufj)
    (hne : i ≠ j) (hepoch : thi.epoch = thj.epoch)
    (hcarriesi : Carries bufi thi.trace key) (hcarriesj : Carries bufj thj.trace key)
    (hgranted : Granted bufi thi.trace) :
    ¬ Granted bufj thj.trace ∧
      ∀ finished, thj.prog = .ret finished →
        (∀ event ∈ thj.trace, ¬ IsRegisterMember event.1) ∨
          ∃ msg, RegisterReturned bufj thj.trace (.error (.notSubmitted msg)) := by
  have htraced := gifter.wellTraced_run s actions
  obtain ⟨qi, hruni, -⟩ := handle_thread htraced hthi htaski
  obtain ⟨qj, hrunj, -, hfinished⟩ := handle_thread htraced hthj htaskj
  have hnot : ¬ Granted bufj thj.trace := fun hgrantedj =>
    hne ((exclusive_run s actions).unique i j thi thj key hthi hthj hepoch
      (hgranted.holds hruni hcarriesi) (hgrantedj.holds hrunj hcarriesj))
  refine ⟨hnot, ?_⟩
  intro finished hprog
  obtain ⟨response, rfl, -⟩ := hfinished finished hprog
  rcases hrunj.finished with hnone | ⟨r, hreturned⟩
  · exact Or.inl hnone
  · right
    by_contra hsubmitted
    apply hnot
    refine ⟨r, hreturned, ?_⟩
    rintro msg rfl
    exact hsubmitted ⟨msg, hreturned⟩

end Runs

open Platform in
/-- The voucher `A1` is presented twice, the second time in another spelling. -/
theorem at_most_one_granted_vouchers :
    ∃ thi thj, let P := gifter.run (Pool.initial {}) (bootVouchers 0 "used" "voucher" ++
        granting 2 "voucher" "A1" ++ presenting 3 "voucher" " a1")
      P.threads 2 = some thi ∧ P.threads 3 = some thj ∧
        Granted (requestOf "voucher").encode thi.trace ∧
        ¬ Granted (requestOf "voucher").encode thj.trace := by
  have hformed : wellFormed (normalize "A1") = true := by decide +kernel
  obtain ⟨B, P, trace, trace', hboot, hgrants, hrefuses⟩ := run_twice "used" "voucher"
    (by decide +kernel) hformed (show normalize " a1" = normalize "A1" by decide +kernel)
    (by decide)
  obtain ⟨response, hthread, -⟩ := hgrants.thread
  have hthi := (hrefuses.others 2 (by decide)).trans hthread
  exact ⟨_, _, hthi, hrefuses.thread, hgrants.granted,
    (at_most_one_granted {} _ hthi hrefuses.thread rfl rfl (by decide) hgrants.epoch.symm
      (hgrants.presents.carries hformed) hrefuses.carries hgrants.granted).1⟩

section Submission

variable [SerdeJson] [CaseTables]

/-- What is taken to mean that nothing was submitted: a failed dispatch, an
explicit error and an empty string. -/
def Declined : Seen → Prop
  | .dispatchFailed _ => True
  | .timedOut => False
  | .reply ok json => ok = true → parseOk (json.getD "") = .string ""

/-- What says nothing about a submission and is an error to the caller: no reply
in time, and a string that is no JSON. -/
def Lost : Seen → Prop
  | .dispatchFailed _ => False
  | .timedOut => True
  | .reply ok json => ok = true ∧ ∃ text e, text ≠ "" ∧
      parseOk (json.getD "") = .string text ∧ SerdeJson.fromStr text = .error e

omit [CaseTables] in
/-- The error of a call came from one of the two. -/
theorem declined_or_lost {method msg : String} {seen : Seen}
    (h : moduleResult method seen = .error msg) : Declined seen ∨ Lost seen := by
  cases seen with
  | dispatchFailed rc => exact Or.inl trivial
  | timedOut => exact Or.inr trivial
  | reply ok json =>
      cases ok with
      | false => exact Or.inl (fun hok => by cases hok)
      | true =>
          change unwrapModule method (parseOk (json.getD "")) = .error msg at h
          rw [unwrapModule] at h
          split at h
          · rename_i text hview
            have hparse := Value.eq_string_of_view hview
            split at h
            · rename_i hempty
              exact Or.inl fun _ => hempty ▸ hparse
            · rename_i htext
              cases hread : SerdeJson.fromStr text with
              | ok v =>
                  rw [hread] at h
                  cases h
              | error e => exact Or.inr ⟨rfl, text, e, htext, hparse, hread⟩
          · cases h

/-- In every step that answers a call of `register_member`, an outcome of this
kind comes with no submission. -/
def NoSubmission (kind : Seen → Prop) (P : GifterPool) (action : Action Task Env) :
    Prop :=
  ∀ id target method args timeoutMs outcome,
    gifter.performed P action =
      some (id, ⟨.invokeAsync target method args timeoutMs, outcome⟩) →
    target = rlnModule → method = "register_member" →
    kind outcome.seen → outcome.submitted = false

theorem noSubmission_events {kind : Seen → Prop} {s : Shared}
    {actions : List (Action Task Env)}
    (h : gifter.Guarded (NoSubmission kind) (Pool.initial s) actions) {id : Nat}
    {th : GifterThread}
    (hth : (gifter.run (Pool.initial s) actions).threads id = some th)
    {args : String} {timeoutMs : Int} {outcome : Outcome}
    (hmem : ⟨.invokeAsync rlnModule "register_member" args timeoutMs, outcome⟩ ∈
      th.trace) :
    kind outcome.seen → outcome.submitted = false := by
  have hevents := gifter.guarded_events (Q := fun event => ∀ outcome : Outcome,
    event = ⟨.invokeAsync rlnModule "register_member" args timeoutMs, outcome⟩ →
    kind outcome.seen → outcome.submitted = false) (fun P action id event hstep => ?_)
    h hth
  · exact hevents _ hmem outcome rfl
  · rintro hperformed outcome rfl
    exact hstep id _ _ args timeoutMs outcome hperformed rfl rfl

omit [CaseTables] in
/-- The call of a `register` that returned `NotSubmitted` gave an error. -/
theorem register_notSubmitted {cfg : ServerCfg} {idc : List UInt8} {rate : UInt64}
    {called : Trace} {msg : String}
    (h : (register cfg idc rate).After called (.ret (.error (.notSubmitted msg))))
    {target method args : String} {timeoutMs : Int} {outcome : Outcome}
    (hmem : ⟨.invokeAsync target method args timeoutMs, outcome⟩ ∈ called) :
    moduleResult "register_member" outcome.seen = .error msg := by
  generalize hq : (Program.ret (.error (.notSubmitted msg)) :
    Prog (Except RegisterError MembershipAllocationSuccess)) = q at h
  cases register_after h with
  | calling => cases hq
  | unsent _ hfound => exact absurd (hfound _ hmem) id
  | failed found hfound outcome' msg' hresult =>
      cases hq
      rcases List.mem_append.mp hmem with hmem | hmem
      · exact absurd (hfound _ hmem) id
      · cases List.mem_singleton.mp hmem
        exact hresult
  | confirming => cases hq
  | settled _ _ _ _ _ _ _ r hr =>
      cases hq
      rcases hr with heq | ⟨_, _, _, heq, -⟩
      · cases heq
      · cases heq

/-- The request submitted a registration. -/
def Submitted (trace : Trace) : Prop :=
  ∃ args timeoutMs outcome,
    ⟨.invokeAsync rlnModule "register_member" args timeoutMs, outcome⟩ ∈ trace ∧
    outcome.submitted = true

/-- No request that rolled its key back had submitted, and of the requests of one
process that carry a key at most one submitted. -/
structure ReleasedUnsubmitted (P : GifterPool) : Prop where
  released : ∀ id th key, P.threads id = some th → ⟨.release key, ()⟩ ∈ th.trace →
    ¬ Submitted th.trace
  unique : ∀ i j thi thj bufi bufj key, P.threads i = some thi →
    P.threads j = some thj → thi.task = .handle bufi → thj.task = .handle bufj →
    thi.epoch = thj.epoch → Carries bufi thi.trace key → Carries bufj thj.trace key →
    Submitted thi.trace → Submitted thj.trace → i = j

theorem released_not_submitted {s : Shared} {actions : List (Action Task Env)}
    (hdeclined : gifter.Guarded (NoSubmission Declined) (Pool.initial s) actions)
    (hlost : gifter.Guarded (NoSubmission Lost) (Pool.initial s) actions) {id : Nat}
    {th : GifterThread} {key : String}
    (hth : (gifter.run (Pool.initial s) actions).threads id = some th)
    (hreleased : ⟨.release key, ()⟩ ∈ th.trace) : ¬ Submitted th.trace := by
  rintro ⟨args, timeoutMs, outcome, hmem, hsubmitted⟩
  have htraced := gifter.wellTraced_run s actions
  obtain ⟨buf, htask⟩ := handle_of_store htraced hth hreleased rfl
  obtain ⟨q, hrun, -⟩ := handle_thread htraced hth htask
  obtain ⟨req, cfg, asked, called, msg, hreq, htrace, hauth, hregister⟩ :=
    hrun.released hreleased
  have hcalled : ⟨.invokeAsync rlnModule "register_member" args timeoutMs, outcome⟩ ∈
      called := by
    rw [htrace] at hmem
    have hasked := authenticate_not_register hauth
      ⟨.invokeAsync rlnModule "register_member" args timeoutMs, outcome⟩
    simp only [List.mem_cons, List.mem_append, List.not_mem_nil] at hmem
    rcases hmem with heq | hmem | hmem | heq | hmem
    · cases heq
    · exact absurd ⟨rfl, rfl⟩ (hasked hmem)
    · exact hmem
    · cases heq
    · cases hmem
  have hfalse : outcome.submitted = false := by
    rcases declined_or_lost (register_notSubmitted hregister hcalled) with h | h
    · exact noSubmission_events hdeclined hth hmem h
    · exact noSubmission_events hlost hth hmem h
  rw [hfalse] at hsubmitted
  cases hsubmitted

/-- A credential is released only when nothing was submitted, in every run in
which a lost reply of `register_member` hides no submission. -/
theorem released_only_unsubmitted (s : Shared) (actions : List (Action Task Env))
    (hdeclined : gifter.Guarded (NoSubmission Declined) (Pool.initial s) actions)
    (hlost : gifter.Guarded (NoSubmission Lost) (Pool.initial s) actions) :
    ReleasedUnsubmitted (gifter.run (Pool.initial s) actions) := by
  have htraced := gifter.wellTraced_run s actions
  constructor
  · intro id th key hth hreleased
    exact released_not_submitted hdeclined hlost hth hreleased
  · intro i j thi thj bufi bufj key hthi hthj htaski htaskj hepoch hcarriesi hcarriesj
      hsubmittedi hsubmittedj
    have hholds : ∀ {id : Nat} {th : GifterThread} {buf : List UInt8},
        (gifter.run (Pool.initial s) actions).threads id = some th →
        th.task = .handle buf → Carries buf th.trace key → Submitted th.trace →
        Holds th.trace key := by
      intro id th buf hth htask hcarries hsubmitted
      obtain ⟨q, hrun, -⟩ := handle_thread htraced hth htask
      have hcall := hsubmitted
      obtain ⟨args, timeoutMs, outcome, hmem, -⟩ := hcall
      exact ⟨hcarries.reserved (hrun.authorised hmem ⟨rfl, rfl⟩), fun hreleased =>
        released_not_submitted hdeclined hlost hth hreleased hsubmitted⟩
    exact (exclusive_run s actions).unique i j thi thj key hthi hthj hepoch
      (hholds hthi htaski hcarriesi hsubmittedi)
      (hholds hthj htaskj hcarriesj hsubmittedj)

/-- The guard of the replies, from the choices of a run. -/
theorem guarded_noSubmission {kind : Seen → Prop} {P : GifterPool}
    {actions : List (Action Task Env)}
    (h : ∀ id env, .act id env ∈ actions → kind env.outcome.seen →
      env.outcome.submitted = false) :
    gifter.Guarded (NoSubmission kind) P actions := by
  induction actions generalizing P with
  | nil => trivial
  | cons action actions ih =>
      refine ⟨?_, ih fun id env hmem => h id env (List.mem_cons_of_mem _ hmem)⟩
      intro id target method args timeoutMs outcome hperformed _ _ hkind
      obtain ⟨env, th, e, next, rfl, -, -, -, hevent, -⟩ := gifter.performed_cases hperformed
      obtain ⟨rfl, hanswer⟩ := Sigma.mk.inj_iff.mp hevent
      obtain rfl : outcome = env.outcome := eq_of_heq hanswer
      exact h id env List.mem_cons_self hkind

end Submission

open Platform in
/-- A dispatch that failed submitted nothing, and its request rolls back. -/
theorem released_only_unsubmitted_dispatch :
    ∃ th, (gifter.run (Pool.initial {}) (bootVouchers 0 "used" "voucher" ++
        failing 2 "voucher" "A1" ⟨.dispatchFailed 1, false⟩)).threads 2 = some th ∧
      ⟨.release (replayKey "voucher" (normalize "A1")), ()⟩ ∈ th.trace ∧
      ¬ Submitted th.trace := by
  obtain ⟨th, args, timeoutMs, hth, -, hreleased⟩ := run_failed "used" "voucher" "A1"
    ⟨.dispatchFailed 1, false⟩ (by decide +kernel) (by decide +kernel) rfl
  refine ⟨th, hth, hreleased, ?_⟩
  refine (released_only_unsubmitted {} _ ?_ ?_).released 2 th _ hth hreleased
  · apply guarded_noSubmission
    intro id env hmem _
    rcases mem_failing hmem with h | h
    · rw [h]
    · exact h
  · apply guarded_noSubmission
    intro id env hmem _
    rcases mem_failing hmem with h | h
    · rw [h]
    · exact h

open Platform in
/-- A registration that was submitted and whose reply came too late is rolled
back. -/
theorem timed_out_released :
    gifter.Guarded (NoSubmission Declined) (Pool.initial {})
      (bootVouchers 0 "used" "voucher" ++ failing 2 "voucher" "A1" ⟨.timedOut, true⟩) ∧
    ¬ ReleasedUnsubmitted (gifter.run (Pool.initial {})
      (bootVouchers 0 "used" "voucher" ++ failing 2 "voucher" "A1" ⟨.timedOut, true⟩)) := by
  constructor
  · apply guarded_noSubmission
    intro id env hmem hdeclined
    rcases mem_failing hmem with h | h
    · rw [h] at hdeclined
      exact absurd hdeclined not_false
    · exact h
  · intro hall
    obtain ⟨th, args, timeoutMs, hth, hcall, hreleased⟩ := run_failed "used" "voucher" "A1"
      ⟨.timedOut, true⟩ (by decide +kernel) (by decide +kernel) rfl
    exact hall.released 2 th _ hth hreleased ⟨args, timeoutMs, _, hcall, rfl⟩

end RlnGifter
