/-
Vectors in the shared replay store.  Under a configuration no type of which
extends another, a request meets only the keys of its own type: it is refused as
used only for a nullifier of its own vector, and the requests of another vector
might as well not have been.
-/
import RlnGifter.Keys
import RlnGifter.Replay

namespace RlnGifter

open Program

section Vectors

variable [SerdeJson] [CaseTables]

/-- The authentication types a configuration names. -/
def ServerCfg.types (cfg : ServerCfg) : List String :=
  cfg.authVerifiers.map Prod.fst

/-- A process that serves `cfg` and has granted nothing yet. -/
structure Serving (cfg : ServerCfg) (s : Shared) : Prop where
  server : s.server = some cfg
  fresh : ∀ key, ¬ IsConsumed s.consumed key

/-- Starting a request, or letting one act. -/
def OnlyRequests : Action Task Env → Prop
  | .spawn _ (.handle _) | .act _ _ => True
  | _ => False

/-- What holds in a run of requests under `cfg`. -/
structure Configured (cfg : ServerCfg) (P : GifterPool) : Prop where
  traced : gifter.WellTraced P
  server : P.shared.server = some cfg
  tasks : ∀ id th, P.threads id = some th → ∃ buf, th.task = .handle buf
  locked : ∀ id th server, P.threads id = some th →
    ⟨.lockServer, server⟩ ∈ th.trace → server = some cfg
  reserved : ∀ key, IsConsumed P.shared.consumed key →
    ∃ id th, P.threads id = some th ∧ ⟨.reserve key, false⟩ ∈ th.trace

theorem configured_initial {cfg : ServerCfg} {s : Shared} (hs : Serving cfg s) :
    Configured cfg (Pool.initial s) := by
  constructor
  · exact gifter.wellTraced_initial s
  · exact hs.server
  · intro id th hth
    cases hth
  · intro id th server hth
    cases hth
  · intro key hkey
    exact absurd hkey (hs.fresh key)

/-- What a thread of a run of requests is about to do. -/
theorem Configured.requesting {cfg : ServerCfg} {P : GifterPool} (hP : Configured cfg P)
    {id : Nat} {th : GifterThread} (hth : P.threads id = some th) {e : Op}
    {next : Answer e → Prog Finished} (hprog : th.prog = .op e next) : Requesting e := by
  obtain ⟨buf, htask⟩ := hP.tasks id th hth
  obtain ⟨q, hrun, hpending, -⟩ := handle_thread hP.traced hth htask
  exact hrun.requesting (hpending.trans (by rw [hprog]; rfl))

omit [SerdeJson] in
/-- A key in the store after a step was there before, or was just reserved. -/
theorem isConsumed_of_exec {env : Env} {s : Shared} {e : Op} {key : String}
    (he : Requesting e) (h : IsConsumed (execOp env s e).2.consumed key) :
    IsConsumed s.consumed key ∨
      (⟨e, (execOp env s e).1⟩ : Event Answer) = ⟨.reserve key, false⟩ := by
  by_cases hold : IsConsumed s.consumed key
  · exact Or.inl hold
  · right
    cases e with
    | reserve nul =>
        rcases isConsumed_reserve.mp h with rfl | h
        · have hfresh : (reserveNullifier s.consumed key).1 = false := by
            rw [← Bool.not_eq_true, reserveNullifier_fst]
            exact hold
          rw [← hfresh]
          rfl
        · exact absurd h hold
    | release nul => exact absurd (isConsumed_release.mp h).2 hold
    | append path nul =>
        rw [execOp] at h
        split at h
        · exact absurd h hold
        · exact absurd h hold
    | lockServer => exact absurd h hold
    | findClient target => exact absurd h hold
    | readOwner => exact absurd h hold
    | invokeAsync target method args timeoutMs => exact absurd h hold
    | pastDeadline => exact absurd h hold
    | _ => exact he.elim

theorem configured_act {cfg : ServerCfg} {P : GifterPool} (hP : Configured cfg P)
    {id : Nat} {th : GifterThread} {e : Op} {next : Answer e → Prog Finished} (env : Env)
    (hth : P.threads id = some th) (hprog : th.prog = .op e next)
    (htraced : gifter.WellTraced (actPool P id th e next env)) :
    Configured cfg (actPool P id th e next env) := by
  have he := hP.requesting hth hprog
  constructor
  · exact htraced
  · rcases exec_server env P.shared e with hsame | ⟨cfg', rfl, -⟩
    · exact hsame.trans hP.server
    · exact he.elim
  · intro other found hfound
    rcases System.put_threads hfound with ⟨-, rfl⟩ | ⟨-, hold⟩
    · exact hP.tasks id th hth
    · exact hP.tasks other found hold
  · intro other found server hfound hmem
    rcases System.put_threads hfound with ⟨-, rfl⟩ | ⟨-, hold⟩
    · rcases List.mem_append.mp hmem with hmem | hmem
      · exact hP.locked id th server hth hmem
      · exact (exec_locked (List.mem_singleton.mp hmem).symm).symm.trans hP.server
    · exact hP.locked other found server hold hmem
  · intro key hkey
    rcases isConsumed_of_exec he hkey with hbefore | hevent
    · obtain ⟨other, found, hfound, hmem⟩ := hP.reserved key hbefore
      by_cases heq : other = id
      · subst heq
        cases hth.symm.trans hfound
        exact ⟨other, _, System.put_same .., List.mem_append_left _ hmem⟩
      · exact ⟨other, found, (System.put_other heq).trans hfound, hmem⟩
    · exact ⟨id, _, System.put_same ..,
        List.mem_append_right _ (List.mem_singleton.mpr hevent.symm)⟩

theorem configured_step {cfg : ServerCfg} {P : GifterPool} (hP : Configured cfg P)
    {action : Action Task Env} (haction : OnlyRequests action) :
    Configured cfg (gifter.step P action) := by
  have htraced := gifter.wellTraced_step hP.traced action
  rcases gifter.step_cases P action with h | ⟨id, task, rfl, hnone, h⟩ |
    ⟨id, env, th, e, next, rfl, hth, -, hprog, h⟩ | ⟨rfl, -⟩
  · rwa [h]
  · rw [h] at htraced ⊢
    constructor
    · exact htraced
    · exact hP.server
    · intro other found hfound
      rcases System.put_threads hfound with ⟨-, rfl⟩ | ⟨-, hold⟩
      · cases task with
        | handle buf => exact ⟨buf, rfl⟩
        | _ => exact haction.elim
      · exact hP.tasks other found hold
    · intro other found server hfound hmem
      rcases System.put_threads hfound with ⟨-, rfl⟩ | ⟨-, hold⟩
      · cases hmem
      · exact hP.locked other found server hold hmem
    · intro key hkey
      obtain ⟨other, found, hfound, hmem⟩ := hP.reserved key hkey
      refine ⟨other, found, ?_, hmem⟩
      by_cases heq : other = id
      · subst heq
        rw [hnone] at hfound
        cases hfound
      · exact (System.put_other heq).trans hfound
  · rw [h] at htraced ⊢
    exact configured_act hP env hth hprog htraced
  · exact haction.elim

theorem configured_run {cfg : ServerCfg} {s : Shared} (hs : Serving cfg s)
    {actions : List (Action Task Env)} (hactions : ∀ action ∈ actions, OnlyRequests action) :
    Configured cfg (gifter.run (Pool.initial s) actions) :=
  gifter.guarded_invariant (Configured cfg) (fun _ _ hP haction => configured_step hP haction)
    (configured_initial hs) (gifter.guarded_of_forall hactions)

/-- The keys of a type. -/
def KeyOfType (t key : String) : Prop :=
  ∃ n, IsNullifier n ∧ key = replayKey t n

/-- The key a thread of a run of requests reserved, or is about to, is of the type
of its request, which is configured. -/
theorem Configured.key {cfg : ServerCfg} {P : GifterPool} (hP : Configured cfg P)
    {id : Nat} {th : GifterThread} (hth : P.threads id = some th) {key : String}
    (hkey : ⟨.reserve key, false⟩ ∈ th.trace ∨ th.prog.pending = some (.reserve key)) :
    ∃ buf req nul, th.task = .handle buf ∧ Admitted buf req ∧
      authTypeOf req ∈ cfg.types ∧ Presents buf th.trace (authTypeOf req) nul ∧
      IsNullifier (normalize nul) ∧ key = replayKey (authTypeOf req) (normalize nul) := by
  obtain ⟨buf, htask⟩ := hP.tasks id th hth
  obtain ⟨q, hrun, hpending, -⟩ := handle_thread hP.traced hth htask
  obtain ⟨req, cfg', asked, rest, verifier, verdict, nul, hreq, htrace, hverified, hnul,
    hformed, rfl⟩ := hrun.carries false (hkey.imp_right hpending.trans)
  have hlocked : ⟨.lockServer, some cfg'⟩ ∈ th.trace := by
    rw [htrace]
    exact List.mem_cons_self
  cases hP.locked id th _ hth hlocked
  obtain ⟨entry, hlookup⟩ := hverified.lookup
  exact ⟨buf, req, nul, htask, hreq, mem_of_lookupField hlookup,
    ⟨req, cfg, asked, rest, verifier, verdict, hreq, htrace, hverified, hnul, rfl⟩,
    isNullifier_normalize hformed, rfl⟩

/-- Two states that differ in the keys of one type and in the files only. -/
structure SameBut (t : String) (s s' : Shared) : Prop where
  server : s.server = s'.server
  clients : s.clients = s'.clients
  owner : s.owner = s'.owner
  consumed : ∀ key, ¬ KeyOfType t key →
    (IsConsumed s.consumed key ↔ IsConsumed s'.consumed key)

omit [SerdeJson] in
/-- What a request does that is not of type `t` it does alike in both states. -/
theorem sameBut_exec {t : String} {s s' : Shared} (h : SameBut t s s') {e : Op}
    (he : Requesting e) (hkey : ∀ key, e = .reserve key → ¬ KeyOfType t key) (env : Env) :
    (execOp env s e).1 = (execOp env s' e).1 ∧
      SameBut t (execOp env s e).2 (execOp env s' e).2 := by
  cases e with
  | lockServer => exact ⟨h.server, h⟩
  | findClient target =>
      refine ⟨?_, h⟩
      simp [execOp, h.clients]
  | readOwner => exact ⟨h.owner, h⟩
  | invokeAsync target method args timeoutMs => exact ⟨rfl, h⟩
  | pastDeadline => exact ⟨rfl, h⟩
  | reserve nul =>
      constructor
      · rw [Bool.eq_iff_iff]
        exact reserveNullifier_fst.trans
          ((h.consumed nul (hkey nul rfl)).trans reserveNullifier_fst.symm)
      · refine ⟨h.server, h.clients, h.owner, ?_⟩
        intro key hother
        exact isConsumed_reserve.trans
          ((or_congr_right (h.consumed key hother)).trans isConsumed_reserve.symm)
  | release nul =>
      refine ⟨rfl, h.server, h.clients, h.owner, ?_⟩
      intro key hother
      exact isConsumed_release.trans
        ((and_congr_right fun _ => h.consumed key hother).trans isConsumed_release.symm)
  | append path nul =>
      by_cases hopened : env.opened = true
      · simp only [execOp, hopened, ↓reduceIte, true_and]
        exact ⟨h.server, h.clients, h.owner, h.consumed⟩
      · simp only [execOp, hopened, Bool.false_eq_true, ↓reduceIte, true_and]
        exact h
  | _ => exact he.elim

omit [SerdeJson] in
/-- What a request of type `t` does changes no key of another. -/
theorem sameBut_hidden {t : String} {s s' : Shared} (h : SameBut t s s') {e : Op}
    (he : Requesting e)
    (hkey : ∀ key, e = .reserve key ∨ e = .release key → KeyOfType t key) (env : Env) :
    SameBut t (execOp env s e).2 s' := by
  cases e with
  | lockServer => exact h
  | findClient target => exact h
  | readOwner => exact h
  | invokeAsync target method args timeoutMs => exact h
  | pastDeadline => exact h
  | reserve nul =>
      refine ⟨h.server, h.clients, h.owner, ?_⟩
      intro key hother
      have hne : key ≠ nul := by
        rintro rfl
        exact hother (hkey key (Or.inl rfl))
      rw [← h.consumed key hother]
      exact isConsumed_reserve.trans (or_iff_right hne)
  | release nul =>
      refine ⟨h.server, h.clients, h.owner, ?_⟩
      intro key hother
      have hne : key ≠ nul := by
        rintro rfl
        exact hother (hkey key (Or.inr rfl))
      rw [← h.consumed key hother]
      exact isConsumed_release.trans (and_iff_right hne)
  | append path nul =>
      rw [execOp]
      split
      · exact ⟨h.server, h.clients, h.owner, h.consumed⟩
      · exact h
  | _ => exact he.elim

/-- The threads that `mine` picks are the requests of type `t`. -/
def Labelled (t : String) (mine : Nat → Bool) : Action Task Env → Prop
  | .spawn id (.handle buf) =>
      ∀ req, Admitted buf req → (authTypeOf req = t ↔ mine id = true)
  | .act _ _ => True
  | _ => False

omit [SerdeJson] [CaseTables] in
theorem Labelled.onlyRequests {t : String} {mine : Nat → Bool}
    {action : Action Task Env} (h : Labelled t mine action) : OnlyRequests action := by
  cases action with
  | spawn id task =>
      cases task with
      | handle buf => trivial
      | _ => exact h.elim
  | act id env => trivial
  | restart => exact h.elim

/-- A pool of labelled requests. -/
structure LabelledPool (cfg : ServerCfg) (t : String) (mine : Nat → Bool)
    (P : GifterPool) : Prop where
  configured : Configured cfg P
  labels : ∀ id th buf req, P.threads id = some th → th.task = .handle buf →
    Admitted buf req → (authTypeOf req = t ↔ mine id = true)

theorem labelledPool_step {cfg : ServerCfg} {t : String} {mine : Nat → Bool}
    {P : GifterPool} (hP : LabelledPool cfg t mine P) {action : Action Task Env}
    (haction : Labelled t mine action) :
    LabelledPool cfg t mine (gifter.step P action) := by
  refine ⟨configured_step hP.configured haction.onlyRequests, ?_⟩
  rcases gifter.step_cases P action with h | ⟨id, task, rfl, -, h⟩ |
    ⟨id, env, th, e, next, rfl, hth, -, -, h⟩ | ⟨rfl, -⟩
  · rw [h]
    exact hP.labels
  · rw [h]
    intro other found buf req hfound htask hreq
    rcases System.put_threads hfound with ⟨rfl, rfl⟩ | ⟨-, hold⟩
    · change task = .handle buf at htask
      subst htask
      exact haction req hreq
    · exact hP.labels other found buf req hold htask hreq
  · rw [h]
    intro other found buf req hfound htask hreq
    rcases System.put_threads hfound with ⟨rfl, rfl⟩ | ⟨-, hold⟩
    · exact hP.labels other th buf req hth htask hreq
    · exact hP.labels other found buf req hold htask hreq
  · exact haction.elim

section Apart

variable {cfg : ServerCfg} {t : String} {mine : Nat → Bool}

theorem hidesActs {P : GifterPool} (hP : LabelledPool cfg t mine P) :
    gifter.HidesActs mine (SameBut t) P := by
  intro id th e next env s hmine hth hprog hR
  refine sameBut_hidden hR (hP.configured.requesting hth hprog) ?_ env
  have hpending : th.prog.pending = some e := by rw [hprog]; rfl
  intro key he
  have hkey : ⟨.reserve key, false⟩ ∈ th.trace ∨
      th.prog.pending = some (.reserve key) := by
    rcases he with rfl | rfl
    · exact Or.inr hpending
    · left
      have hphase := thread_storePhase hP.configured.traced hth
      rw [hpending] at hphase
      exact (holds_of_release hphase).1
  obtain ⟨buf, req, nul, htask, hreq, -, -, hnul, rfl⟩ := hP.configured.key hth hkey
  rw [(hP.labels id th buf req hth htask hreq).mpr hmine]
  exact ⟨_, hnul, rfl⟩

theorem showsActs (ht : t ∈ cfg.types)
    (hextends : ∀ t ∈ cfg.types, ∀ t' ∈ cfg.types, ¬ Extends t t') {P : GifterPool}
    (hP : LabelledPool cfg t mine P) : gifter.ShowsActs mine (SameBut t) P := by
  intro id th e next env s hmine hth hprog hR
  refine sameBut_exec hR (hP.configured.requesting hth hprog) ?_ env
  rintro key rfl ⟨n, hn, hkey⟩
  have hpending : th.prog.pending = some (.reserve key) := by rw [hprog]; rfl
  obtain ⟨buf, req, nul, htask, hreq, htypes, -, hnul, hkey'⟩ :=
    hP.configured.key hth (Or.inr hpending)
  rcases eq_or_extends hn hnul (hkey.symm.trans hkey') with ⟨heq, -⟩ | h | h
  · rw [(hP.labels id th buf req hth htask hreq).mp heq.symm] at hmine
    cases hmine
  · exact hextends _ ht _ htypes h
  · exact hextends _ htypes _ ht h

/-- A run goes for the other types as it goes without the requests of type `t`. -/
theorem agree_without (ht : t ∈ cfg.types)
    (hextends : ∀ t ∈ cfg.types, ∀ t' ∈ cfg.types, ¬ Extends t t') {s : Shared}
    (hs : Serving cfg s) {actions : List (Action Task Env)}
    (hactions : ∀ action ∈ actions, Labelled t mine action) :
    System.Agree mine (SameBut t) (gifter.run (Pool.initial s) actions)
      (gifter.run (Pool.initial s) (actions.filter (System.shown mine))) := by
  apply gifter.agree_run (LabelledPool cfg t mine)
    (fun _ _ hP haction => labelledPool_step hP haction) (fun _ hP => hidesActs hP)
    (fun _ hP => showsActs ht hextends hP) _ _ (gifter.guarded_of_forall hactions)
  · exact ⟨rfl, ⟨rfl, rfl, rfl, fun _ _ => Iff.rfl⟩, fun _ _ => rfl⟩
  · intro s s' _
    exact ⟨rfl, rfl, rfl, fun _ _ => Iff.rfl⟩
  · refine ⟨configured_initial hs, ?_⟩
    intro id th buf req hth
    cases hth

end Apart

/-- Vectors are isolated under `cfg`: no two of their keys meet; in every run of
requests a key found used was reserved, before, by a request of the same type with
the same nullifier; and what the requests of one type do makes no difference to
any other request. -/
structure Isolated (cfg : ServerCfg) : Prop where
  injective : ∀ t ∈ cfg.types, ∀ t' ∈ cfg.types, ∀ n n', IsNullifier n → IsNullifier n' →
    replayKey t n = replayKey t' n' → t = t' ∧ n = n'
  used : ∀ s actions, Serving cfg s → (∀ action ∈ actions, OnlyRequests action) →
    ∀ action id th buf key t nul,
      gifter.performed (gifter.run (Pool.initial s) actions) action =
        some (id, ⟨.reserve key, true⟩) →
      (gifter.run (Pool.initial s) actions).threads id = some th →
      th.task = .handle buf → Presents buf th.trace t nul →
      ∃ id' th' buf' nul', (gifter.run (Pool.initial s) actions).threads id' = some th' ∧
        th'.task = .handle buf' ∧ Presents buf' th'.trace t nul' ∧
        normalize nul' = normalize nul ∧ ⟨.reserve key, false⟩ ∈ th'.trace
  independent : ∀ t ∈ cfg.types, ∀ s mine actions actions', Serving cfg s →
    (∀ action ∈ actions, Labelled t mine action) →
    (∀ action ∈ actions', Labelled t mine action) →
    actions.filter (System.shown mine) = actions'.filter (System.shown mine) →
    ∀ id, mine id = false →
      (gifter.run (Pool.initial s) actions).threads id =
        (gifter.run (Pool.initial s) actions').threads id

theorem used_of_same_type {cfg : ServerCfg}
    (hextends : ∀ t ∈ cfg.types, ∀ t' ∈ cfg.types, ¬ Extends t t') {P : GifterPool}
    (hP : Configured cfg P) {action : Action Task Env} {id : Nat} {th : GifterThread}
    {buf : List UInt8} {key t nul : String}
    (hused : gifter.performed P action = some (id, ⟨.reserve key, true⟩))
    (hth : P.threads id = some th) (htask : th.task = .handle buf)
    (hpresents : Presents buf th.trace t nul) :
    ∃ id' th' buf' nul', P.threads id' = some th' ∧ th'.task = .handle buf' ∧
      Presents buf' th'.trace t nul' ∧ normalize nul' = normalize nul ∧
      ⟨.reserve key, false⟩ ∈ th'.trace := by
  obtain ⟨env, found, e, next, -, hfound, -, hprog, hevent, -⟩ :=
    gifter.performed_cases hused
  cases hth.symm.trans hfound
  obtain ⟨rfl, hanswer⟩ := Sigma.mk.inj_iff.mp hevent
  have hpending : th.prog.pending = some (.reserve key) := by rw [hprog]; rfl
  have hconsumed : IsConsumed P.shared.consumed key :=
    reserveNullifier_fst.mp (eq_of_heq hanswer).symm
  obtain ⟨buf', req, nul₁, htask', -, htypes, hpresents₁, hnul, hkey⟩ :=
    hP.key hth (Or.inr hpending)
  cases htask.symm.trans htask'
  obtain ⟨rfl, rfl⟩ := hpresents.unique hpresents₁
  obtain ⟨id', th', hth', hreserved⟩ := hP.reserved key hconsumed
  obtain ⟨buf', req', nul', htask', -, htypes', hpresents', hnul', hkey'⟩ :=
    hP.key hth' (Or.inl hreserved)
  -- the two keys are one, so the two types are
  rcases eq_or_extends hnul hnul' (hkey.symm.trans hkey') with ⟨htype, hsame⟩ | h | h
  · rw [htype]
    exact ⟨id', th', buf', nul', hth', htask', hpresents', hsame.symm, hreserved⟩
  · exact absurd h (hextends _ htypes _ htypes')
  · exact absurd h (hextends _ htypes' _ htypes)

/-- Vectors are isolated exactly under the configurations in which no type extends
another by a colon and a text that may begin a nullifier. -/
theorem isolated_iff (cfg : ServerCfg) :
    Isolated cfg ↔ ∀ t ∈ cfg.types, ∀ t' ∈ cfg.types, ¬ Extends t t' := by
  constructor
  · intro h t ht t' ht' hextends
    obtain ⟨n, n', hn, hn', hkey⟩ := hextends.meet
    obtain ⟨rfl, -⟩ := h.injective t ht t' ht' n n' hn hn' hkey
    exact not_extends_self t hextends
  · intro h
    constructor
    · intro t ht t' ht' n n' hn hn' hkey
      rcases eq_or_extends hn hn' hkey with heq | hextends | hextends
      · exact heq
      · exact absurd hextends (h t ht t' ht')
      · exact absurd hextends (h t' ht' t ht)
    · intro s actions hs hactions action id th buf key t nul hused hth htask hpresents
      exact used_of_same_type h (configured_run hs hactions) hused hth htask hpresents
    · intro t ht s mine actions actions' hs hactions hactions' hfilter id hid
      rw [(agree_without ht h hs hactions).threads id hid, hfilter]
      exact ((agree_without ht h hs hactions').threads id hid).symm

end Vectors

/-- Two vectors, the type of one of which extends that of the other. -/
def nestedCfg : ServerCfg :=
  ⟨"config", "wallet", [("a", "first_auth_module", none), ("a:b", "second_auth_module", none)],
    "used", defaultMaxRate⟩

open Platform in
/-- The nullifier `b:x` of type `a` and the nullifier `x` of type `a:b` have one key. -/
theorem nestedCfg_not_isolated : ¬ Isolated nestedCfg := by
  intro h
  have hfirst : IsNullifier "b:x" := by
    constructor
    · decide +kernel
    · decide +kernel
  have hsecond : IsNullifier "x" := isNullifier_x
  obtain ⟨htypes, -⟩ := h.injective "a" (by decide) "a:b" (by decide) "b:x" "x" hfirst hsecond
    (by decide)
  exact absurd htypes (by decide)

end RlnGifter
