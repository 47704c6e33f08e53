/-
Replay protection across restarts: what was appended to the file is loaded before
any request of a later process is served, so it is never reserved afresh.
-/
import RlnGifter.Keys
import RlnGifter.Replay

namespace RlnGifter

open Program

section Durable

variable [SerdeJson] [CaseTables]

/-- Every `serve` names the file `path`, and every read and write succeeds. -/
def SameFile (path : String) (_ : GifterPool) : Action Task Env → Prop
  | .spawn _ (.serve argsJson) => ∀ a, SerdeJson.fromStr argsJson = .ok a → pathOf a = path
  | .act _ env => env.readable = true ∧ env.opened = true ∧ env.written = none
  | _ => True

/-- Every type that is configured is storable. -/
def StorableTypes (_ : GifterPool) : Action Task Env → Prop
  | .spawn _ (.serve argsJson) => ∀ a, SerdeJson.fromStr argsJson = .ok a →
      ∀ t ∈ typesOf a, Storable t
  | _ => True

/-- A configuration that names the file and whose types are storable. -/
structure Stores (path : String) (cfg : ServerCfg) : Prop where
  path : cfg.nullifiersPath = path
  types : ∀ t ∈ cfg.authVerifiers.map Prod.fst, Storable t

/-- Some thread of an earlier process appended `key`. -/
def Appended (path : String) (P : GifterPool) (key : String) : Prop :=
  ∃ id th written, P.threads id = some th ∧ th.epoch < P.epoch ∧
    ⟨.append path key, written⟩ ∈ th.trace

/-- What holds of a pool whose requests append to `path`. -/
structure Durable (path : String) (P : GifterPool) : Prop where
  serves : ∀ id th argsJson a, P.threads id = some th → th.task = .serve argsJson →
    SerdeJson.fromStr argsJson = .ok a → pathOf a = path ∧ ∀ t ∈ typesOf a, Storable t
  server : ∀ cfg, P.shared.server = some cfg → Stores path cfg
  locked : ∀ id th cfg, P.threads id = some th →
    ⟨.lockServer, some cfg⟩ ∈ th.trace → Stores path cfg
  file : ∃ keys : List String, (P.shared.files path).getD "" = String.join (keys.map nullifierLine) ∧
    (∀ k ∈ keys, IsLine k) ∧ ∀ id th k written, P.threads id = some th →
      ⟨.append path k, written⟩ ∈ th.trace → k ∈ keys
  merged : ∀ id th loaded key, P.threads id = some th → th.epoch = P.epoch →
    ⟨.merge path, loaded⟩ ∈ th.trace → Appended path P key →
    IsConsumed P.shared.consumed key
  configured : ∀ key, P.shared.server ≠ none → Appended path P key →
    IsConsumed P.shared.consumed key
  running : ∀ id th cfg, P.threads id = some th → th.epoch = P.epoch →
    ⟨.lockServer, some cfg⟩ ∈ th.trace → P.shared.server ≠ none
  fresh : ∀ i j thi thj key written, P.threads i = some thi → P.threads j = some thj →
    thi.epoch < thj.epoch → ⟨.append path key, written⟩ ∈ thi.trace →
    ⟨.reserve key, false⟩ ∉ thj.trace

omit [SerdeJson] in
/-- Files change by appending only, and with every write succeeding by whole
lines. -/
theorem exec_files {env : Env} (hopened : env.opened = true)
    (hwritten : env.written = none) (s : Shared) (e : Op) (path : String) :
    (execOp env s e).2.files path = s.files path ∧ (∀ k, e ≠ .append path k) ∨
      ∃ k, e = .append path k ∧ (execOp env s e).2.files path =
        some ((s.files path).getD "" ++ nullifierLine k) := by
  cases e with
  | append path' k =>
      have hexec : (execOp env s (.append path' k)).2.files = Function.update s.files path'
          (some ((s.files path').getD "" ++ nullifierLine k)) := by
        simp [execOp, hopened, hwritten, writtenPart]
      rw [hexec]
      by_cases hpath : path = path'
      · subst hpath
        exact Or.inr ⟨k, rfl, by simp⟩
      · refine Or.inl ⟨by rw [Function.update_of_ne hpath], ?_⟩
        rintro k' heq
        cases heq
        exact hpath rfl
  | createClient target =>
      left
      rw [execOp]
      split <;> simp
  | _ => exact Or.inl ⟨rfl, by simp⟩

/-- The first process finds nothing. -/
theorem durable_initial (path : String) : Durable path (Pool.initial {}) := by
  constructor
  · intro id th argsJson a hth
    cases hth
  · intro cfg hcfg
    cases hcfg
  · intro id th cfg hth
    cases hth
  · refine ⟨[], rfl, by simp, ?_⟩
    intro id th k written hth
    cases hth
  · intro id th loaded key hth
    cases hth
  · intro key hserver
    exact absurd rfl hserver
  · intro id th cfg hth
    cases hth
  · intro i j thi thj key written hthi
    cases hthi

theorem durable_spawn {path : String} {P : GifterPool} (hP : Durable path P) {id : Nat}
    {task : Task} (hfile : SameFile path P (.spawn id task))
    (htypes : StorableTypes P (.spawn id task)) :
    Durable path (System.put P P.shared id (gifter.start P task)) := by
  -- the new thread has done nothing, so what others did is all there is
  have hold : ∀ {other : Nat} {found : GifterThread} {event : Event Answer},
      (System.put P P.shared id (gifter.start P task)).threads other = some found →
      event ∈ found.trace → P.threads other = some found := by
    intro other found event hfound hevent
    rcases System.put_threads hfound with ⟨-, rfl⟩ | ⟨-, hold⟩
    · cases hevent
    · exact hold
  have happended : ∀ key,
      Appended path (System.put P P.shared id (gifter.start P task)) key →
      Appended path P key := by
    rintro key ⟨other, found, written, hfound, hepoch, hmem⟩
    exact ⟨other, found, written, hold hfound hmem, hepoch, hmem⟩
  constructor
  · intro other found argsJson a hfound htask ha
    rcases System.put_threads hfound with ⟨-, rfl⟩ | ⟨-, hbefore⟩
    · change task = .serve argsJson at htask
      subst htask
      exact ⟨hfile a ha, htypes a ha⟩
    · exact hP.serves other found argsJson a hbefore htask ha
  · exact hP.server
  · intro other found cfg hfound hmem
    exact hP.locked other found cfg (hold hfound hmem) hmem
  · obtain ⟨keys, hcontents, hlines, hkeys⟩ := hP.file
    refine ⟨keys, hcontents, hlines, ?_⟩
    intro other found k written hfound hmem
    exact hkeys other found k written (hold hfound hmem) hmem
  · intro other found loaded key hfound hepoch hmem hkey
    exact hP.merged other found loaded key (hold hfound hmem) hepoch hmem
      (happended key hkey)
  · intro key hserver hkey
    exact hP.configured key hserver (happended key hkey)
  · intro other found cfg hfound hepoch hmem
    exact hP.running other found cfg (hold hfound hmem) hepoch hmem
  · intro i j thi thj key written hthi hthj hlt hmemi hmemj
    exact hP.fresh i j thi thj key written (hold hthi hmemi) (hold hthj hmemj) hlt hmemi
      hmemj

theorem durable_restart {path : String} {P : GifterPool} (hP : Durable path P)
    (htraced : gifter.WellTraced P) :
    Durable path { P with shared := reboot P.shared, epoch := P.epoch + 1 } := by
  have hdead : ∀ {id : Nat} {th : GifterThread}, P.threads id = some th →
      th.epoch ≠ P.epoch + 1 := by
    intro id th hth heq
    have hle := (htraced id th hth).2
    omega
  constructor
  · exact hP.serves
  · intro cfg hcfg
    cases hcfg
  · exact hP.locked
  · exact hP.file
  · intro id th loaded key hth hepoch
    exact absurd hepoch (hdead hth)
  · intro key hserver
    exact absurd rfl hserver
  · intro id th cfg hth hepoch
    exact absurd hepoch (hdead hth)
  · exact hP.fresh

section Act

variable {path : String} {P : GifterPool} {id : Nat} {th : GifterThread} {e : Op}
  {next : Answer e → Prog Finished} {env : Env}

omit [SerdeJson] in
/-- An event after the step was there before, or is the one performed. -/
theorem actPool_event (hth : P.threads id = some th) {other : Nat}
    {found : GifterThread} {event : Event Answer}
    (hfound : (actPool P id th e next env).threads other = some found)
    (hevent : event ∈ found.trace) :
    (∃ old, P.threads other = some old ∧ old.epoch = found.epoch ∧ event ∈ old.trace) ∨
      (other = id ∧ found.epoch = th.epoch ∧
        event = ⟨e, (execOp env P.shared e).1⟩) := by
  rcases System.put_threads hfound with ⟨rfl, rfl⟩ | ⟨-, hold⟩
  · rcases List.mem_append.mp hevent with hevent | hevent
    · exact Or.inl ⟨th, hth, rfl, hevent⟩
    · exact Or.inr ⟨rfl, rfl, List.mem_singleton.mp hevent⟩
  · exact Or.inl ⟨found, hold, rfl, hevent⟩

omit [SerdeJson] in
/-- Appending does not change what earlier processes appended. -/
theorem appended_act (hth : P.threads id = some th) (hepoch : th.epoch = P.epoch)
    {key : String} (h : Appended path (actPool P id th e next env) key) :
    Appended path P key := by
  obtain ⟨other, found, written, hfound, hlt, hmem⟩ := h
  rcases actPool_event hth hfound hmem with ⟨old, hold, holdEpoch, hmem⟩ |
    ⟨-, hsame, -⟩
  · exact ⟨other, old, written, hold, holdEpoch ▸ hlt, hmem⟩
  · change found.epoch < P.epoch at hlt
    omega

/-- No rollback concerns a key that an earlier process appended. -/
theorem consumed_act (hP : Durable path P) (htraced : gifter.WellTraced P)
    (hth : P.threads id = some th) (hepoch : th.epoch = P.epoch)
    (hprog : th.prog = .op e next) {key : String} (hkey : Appended path P key)
    (h : IsConsumed P.shared.consumed key) :
    IsConsumed (execOp env P.shared e).2.consumed key := by
  apply isConsumed_exec _ h
  rintro rfl
  have hphase := thread_storePhase htraced hth
  rw [hprog, pending_op] at hphase
  obtain ⟨other, found, written, hfound, hlt, hmem⟩ := hkey
  exact hP.fresh other id found th key written hfound hth (hepoch ▸ hlt) hmem
    (holds_of_release hphase).1

/-- The key a thread is about to append is a line of its own. -/
theorem isLine_append (hP : Durable path P) (htraced : gifter.WellTraced P)
    (hth : P.threads id = some th) {path' key : String}
    (hpending : th.prog.pending = some (.append path' key)) : IsLine key := by
  have hphase := thread_storePhase htraced hth
  rw [hpending] at hphase
  have hreserved : ⟨.reserve key, false⟩ ∈ th.trace := by
    rw [← mem_storeEvents rfl, hphase.of_append]
    exact List.mem_singleton_self _
  obtain ⟨buf, htask⟩ := handle_of_store htraced hth hreserved rfl
  obtain ⟨q, hrun, -⟩ := handle_thread htraced hth htask
  obtain ⟨req, cfg, asked, rest, verifier, verdict, nul, -, htrace, hverified, -, hformed,
    rfl⟩ := hrun.carries false (Or.inl hreserved)
  obtain ⟨entry, hlookup⟩ := hverified.lookup
  have hstores := hP.locked id th cfg hth (by rw [htrace]; exact List.mem_cons_self)
  exact isLine_replayKey (hstores.types _ (mem_of_lookupField hlookup))
    (isNullifier_normalize hformed)

/-- The configuration a thread is about to install names the file, and the thread
merged it before. -/
theorem stores_storeServer (hP : Durable path P) (htraced : gifter.WellTraced P)
    (hth : P.threads id = some th) {cfg : ServerCfg}
    (hpending : th.prog.pending = some (.storeServer cfg)) :
    Stores path cfg ∧ ∃ loaded, ⟨.merge path, loaded⟩ ∈ th.trace := by
  obtain ⟨argsJson, htask, hrun⟩ := serve_of_installing htraced hth hpending trivial
  rw [hpending] at hrun
  generalize htrace : th.trace = trace at hrun
  cases hrun with
  | preparing _ _ _ hnext =>
      rcases hnext _ rfl with hcalling | ⟨a, -, heq⟩
      · exact hcalling.elim
      · cases heq
  | merged called hcalled a ha loaded _ hpath htypes =>
      obtain ⟨hsame, hstorable⟩ := hP.serves id th argsJson a hth htask ha
      refine ⟨⟨hpath.trans hsame, fun t ht => hstorable t (htypes ▸ ht)⟩, loaded, ?_⟩
      rw [hsame]
      simp
  | mounting _ _ _ _ _ _ _ _ _ _ _ hnext =>
      rcases hnext _ rfl with hcalling | heq | heq | heq
      · exact hcalling.elim
      · cases heq
      · cases heq
      · cases heq

/-- The key a thread is about to reserve was looked up under a configuration. -/
theorem server_reserve (hP : Durable path P) (htraced : gifter.WellTraced P)
    (hth : P.threads id = some th) (hepoch : th.epoch = P.epoch) {key : String}
    (hpending : th.prog.pending = some (.reserve key)) : P.shared.server ≠ none := by
  obtain ⟨buf, htask⟩ := handle_of_pending htraced hth hpending rfl
  obtain ⟨q, hrun, heq, -⟩ := handle_thread htraced hth htask
  obtain ⟨req, cfg, asked, rest, -, -, -, -, htrace, -⟩ :=
    hrun.carries false (Or.inr (heq.trans hpending))
  exact hP.running id th cfg hth hepoch (by rw [htrace]; exact List.mem_cons_self)

theorem durable_file (hP : Durable path P) (htraced : gifter.WellTraced P)
    (hth : P.threads id = some th) (hprog : th.prog = .op e next)
    (hopened : env.opened = true) (hwritten : env.written = none) :
    ∃ keys : List String, ((execOp env P.shared e).2.files path).getD "" =
        String.join (keys.map nullifierLine) ∧
      (∀ k ∈ keys, IsLine k) ∧
      ∀ other found k written,
        (actPool P id th e next env).threads other = some found →
        ⟨.append path k, written⟩ ∈ found.trace → k ∈ keys := by
  obtain ⟨keys, hcontents, hlines, hkeys⟩ := hP.file
  rcases exec_files hopened hwritten P.shared e path with ⟨hsame, hne⟩ | ⟨key, rfl, hnew⟩
  · refine ⟨keys, by rw [hsame]; exact hcontents, hlines, ?_⟩
    intro other found k written hfound hmem
    rcases actPool_event hth hfound hmem with ⟨old, hold, -, hmem⟩ | ⟨-, -, hevent⟩
    · exact hkeys other old k written hold hmem
    · exact absurd (Sigma.mk.inj_iff.mp hevent).1.symm (hne k)
  · refine ⟨keys ++ [key], ?_, ?_, ?_⟩
    · rw [hnew, Option.getD_some, hcontents]
      simp
    · intro k hk
      rcases List.mem_append.mp hk with hk | hk
      · exact hlines k hk
      · rw [List.mem_singleton.mp hk]
        exact isLine_append hP htraced hth (by rw [hprog]; rfl)
    · intro other found k written hfound hmem
      rcases actPool_event hth hfound hmem with ⟨old, hold, -, hmem⟩ | ⟨-, -, hevent⟩
      · exact List.mem_append_left _ (hkeys other old k written hold hmem)
      · cases (Sigma.mk.inj_iff.mp hevent).1
        exact List.mem_append_right _ (List.mem_singleton_self _)

/-- Merging the file consumes whatever was appended to it. -/
theorem consumed_merge (hP : Durable path P) (hpath : path ≠ "")
    (hreadable : env.readable = true) {key : String} (hkey : Appended path P key) :
    IsConsumed (execOp env P.shared (.merge path)).2.consumed key := by
  obtain ⟨other, found, written, hfound, -, hmem⟩ := hkey
  obtain ⟨keys, hcontents, hlines, hkeys⟩ := hP.file
  have hin : key ∈ keys := hkeys other found key written hfound hmem
  have hloaded : key ∈ loadNullifiers path (P.shared.files path) := by
    simp only [loadNullifiers, if_neg hpath]
    cases hfile : P.shared.files path with
    | none =>
        rw [hfile] at hcontents
        have hnil : keys = [] := by
          cases keys with
          | nil => rfl
          | cons k keys =>
              have hlen := congrArg (fun text => text.toList) hcontents
              simp [nullifierLine] at hlen
        rw [hnil] at hin
        cases hin
    | some contents =>
        rw [hfile, Option.getD_some] at hcontents
        change key ∈ parseNullifiers contents
        rw [hcontents, parseNullifiers_keys hlines, List.mem_toFinset]
        exact hin
  refine isConsumed_merge.mpr (Or.inr ?_)
  simpa [hreadable] using hloaded

/-- A request that found a configuration runs in a process that has one. -/
theorem durable_running (hP : Durable path P) (hth : P.threads id = some th) {other : Nat}
    {found : GifterThread} {cfg : ServerCfg}
    (hfound : (actPool P id th e next env).threads other = some found)
    (hlive : found.epoch = P.epoch) (hmem : ⟨.lockServer, some cfg⟩ ∈ found.trace) :
    (execOp env P.shared e).2.server ≠ none := by
  have hbefore : P.shared.server ≠ none := by
    rcases actPool_event hth hfound hmem with ⟨old, hold, holdEpoch, hmem⟩ |
      ⟨-, -, hevent⟩
    · exact hP.running other old cfg hold (holdEpoch.trans hlive) hmem
    · simp [exec_locked hevent.symm]
  rcases exec_server env P.shared e with hsame | ⟨cfg', -, hnew⟩
  · exact hsame ▸ hbefore
  · intro hnone
    cases hnew.symm.trans hnone

/-- What a thread reserves was not appended to the file by an earlier process. -/
theorem durable_fresh (hP : Durable path P) (htraced : gifter.WellTraced P)
    (hth : P.threads id = some th) (hepoch : th.epoch = P.epoch)
    (hpending : th.prog.pending = some e) {i j : Nat} {thi thj : GifterThread} {key : String}
    {written : Answer (.append path key)}
    (hthi : (actPool P id th e next env).threads i = some thi)
    (hthj : (actPool P id th e next env).threads j = some thj) (hlt : thi.epoch < thj.epoch)
    (hmemi : ⟨.append path key, written⟩ ∈ thi.trace) :
    ⟨.reserve key, false⟩ ∉ thj.trace := by
  intro hmemj
  have hle : thj.epoch ≤ P.epoch := by
    rcases System.put_threads hthj with ⟨rfl, rfl⟩ | ⟨-, hold⟩
    · exact Nat.le_of_eq hepoch
    · exact (htraced j thj hold).2
  -- the appending thread is from an earlier process, so it did not just act
  rcases actPool_event hth hthi hmemi with ⟨oldi, holdi, hepochi, hmemi⟩ |
    ⟨-, hsame, -⟩
  · rcases actPool_event hth hthj hmemj with ⟨oldj, holdj, hepochj, hmemj⟩ |
      ⟨-, hsame, hevent⟩
    · exact hP.fresh i j oldi oldj key written holdi holdj (by omega) hmemi hmemj
    · obtain ⟨hfree, -⟩ := exec_reserved hevent.symm
      cases (Sigma.mk.inj_iff.mp hevent).1
      apply hfree
      exact hP.configured key (server_reserve hP htraced hth hepoch hpending)
        ⟨i, oldi, written, holdi, by omega, hmemi⟩
  · omega

theorem durable_act (hpath : path ≠ "") (hP : Durable path P)
    (htraced : gifter.WellTraced P) (hth : P.threads id = some th)
    (hepoch : th.epoch = P.epoch) (hprog : th.prog = .op e next)
    (hreadable : env.readable = true) (hopened : env.opened = true)
    (hwritten : env.written = none) : Durable path (actPool P id th e next env) := by
  have hpending : th.prog.pending = some e := by rw [hprog]; rfl
  constructor
  · intro other found argsJson a hfound htask ha
    rcases System.put_threads hfound with ⟨rfl, rfl⟩ | ⟨-, hold⟩
    · exact hP.serves other th argsJson a hth htask ha
    · exact hP.serves other found argsJson a hold htask ha
  · intro cfg hcfg
    rcases exec_server env P.shared e with hsame | ⟨cfg', rfl, hnew⟩
    · exact hP.server cfg (hsame ▸ hcfg)
    · cases hnew.symm.trans hcfg
      exact (stores_storeServer hP htraced hth hpending).1
  · intro other found cfg hfound hmem
    rcases actPool_event hth hfound hmem with ⟨old, hold, -, hmem⟩ | ⟨-, -, hevent⟩
    · exact hP.locked other old cfg hold hmem
    · exact hP.server cfg (exec_locked hevent.symm)
  · exact durable_file hP htraced hth hprog hopened hwritten
  · intro other found loaded key hfound hlive hmem hkey
    have hkey' := appended_act hth hepoch hkey
    rcases actPool_event hth hfound hmem with ⟨old, hold, holdEpoch, hmem⟩ |
      ⟨-, -, hevent⟩
    · exact consumed_act hP htraced hth hepoch hprog hkey'
        (hP.merged other old loaded key hold (holdEpoch.trans hlive) hmem hkey')
    · cases (Sigma.mk.inj_iff.mp hevent).1
      exact consumed_merge hP hpath hreadable hkey'
  · intro key hserver hkey
    have hkey' := appended_act hth hepoch hkey
    apply consumed_act hP htraced hth hepoch hprog hkey'
    rcases exec_server env P.shared e with hsame | ⟨cfg, rfl, hnew⟩
    · exact hP.configured key (hsame ▸ hserver) hkey'
    · obtain ⟨-, loaded, hmerged⟩ := stores_storeServer hP htraced hth hpending
      exact hP.merged id th loaded key hth hepoch hmerged hkey'
  · intro other found cfg hfound hlive hmem
    exact durable_running hP hth hfound hlive hmem
  · intro i j thi thj key written hthi hthj hlt hmemi hmemj
    exact durable_fresh hP htraced hth hepoch hpending hthi hthj hlt hmemi hmemj

end Act

theorem durable_run {path : String} (hpath : path ≠ "")
    {actions : List (Action Task Env)}
    (hfile : gifter.Guarded (SameFile path) (Pool.initial {}) actions)
    (htypes : gifter.Guarded StorableTypes (Pool.initial {}) actions) :
    Durable path (gifter.run (Pool.initial {}) actions) := by
  have hboth := gifter.guarded_invariant
    (fun P => Durable path P ∧ gifter.WellTraced P) (fun P action hP hok => ?_)
    ⟨durable_initial path, gifter.wellTraced_initial {}⟩ (gifter.guarded_and hfile htypes)
  · exact hboth.1
  · obtain ⟨hdurable, htraced⟩ := hP
    refine ⟨?_, gifter.wellTraced_step htraced action⟩
    rcases gifter.step_cases P action with h | ⟨id, task, rfl, -, h⟩ |
      ⟨id, env, th, e, next, rfl, hth, hepoch, hprog, h⟩ | ⟨-, h⟩
    · rwa [h]
    · rw [h]
      exact durable_spawn hdurable hok.1 hok.2
    · rw [h]
      obtain ⟨hreadable, hopened, hwritten⟩ := hok.1
      exact durable_act hpath hdurable htraced hth hepoch hprog hreadable hopened hwritten
    · rw [h]
      exact durable_restart hdurable htraced

/-- A finished request that was granted has appended the key it carries. -/
theorem Granted.appended_to {path : String} (hpath : path ≠ "") {trace : Trace}
    {buf : List UInt8} {key : String} {response : RlnGifterResponse}
    (hlocked : ∀ cfg, ⟨.lockServer, some cfg⟩ ∈ trace → cfg.nullifiersPath = path)
    (hrun : HandleRun buf trace (.ret response)) (hcarries : Carries buf trace key)
    (hgranted : Granted buf trace) : ∃ written, ⟨.append path key, written⟩ ∈ trace := by
  obtain ⟨r, hreturned, hr⟩ := hgranted
  obtain ⟨req, cfg, asked, called, last, k, hreq, htrace, hauth, hregister, hsettle⟩ :=
    hreturned.settling hrun
  obtain ⟨rfl, -⟩ := hcarries.authenticated hreq htrace hauth
  have hstores := hlocked cfg (by rw [htrace]; exact List.mem_cons_self)
  have hop := @settleOp_kept cfg key r (hstores ▸ hpath) hr
  rw [hstores] at hop
  rcases settle_after hsettle with ⟨-, ⟨hnone, -⟩ | ⟨e, next, -, heq⟩⟩ |
    ⟨e, written, he, rfl, -⟩
  · cases hop.symm.trans hnone
  · cases heq
  · cases hop.symm.trans he
    exact ⟨written, by rw [htrace]; simp⟩

theorem Granted.appended {path : String} {P : GifterPool} (hpath : path ≠ "")
    (hP : Durable path P) {id : Nat} {th : GifterThread} {buf : List UInt8}
    {key : String} {response : RlnGifterResponse} (hth : P.threads id = some th)
    (hrun : HandleRun buf th.trace (.ret response))
    (hcarries : Carries buf th.trace key) (hgranted : Granted buf th.trace) :
    ∃ written, ⟨.append path key, written⟩ ∈ th.trace :=
  hgranted.appended_to hpath (fun cfg hmem => (hP.locked id th cfg hth hmem).path) hrun hcarries

/-- Requests are over when the process is restarted. -/
def BetweenRequests (P : GifterPool) (action : Action Task Env) : Prop :=
  action = .restart → ∀ id th buf, P.threads id = some th → th.epoch = P.epoch →
    th.task = .handle buf → ∃ finished, th.prog = .ret finished

/-- A later request that carries a key which an earlier process appended is
refused as already used, without a call of `register_member`. -/
theorem Durable.refused {path : String} {P : GifterPool} (hP : Durable path P)
    (htraced : gifter.WellTraced P) {i j : Nat} {thi thj : GifterThread}
    {buf : List UInt8} {key : String} {written : Bool}
    (hthi : P.threads i = some thi) (hthj : P.threads j = some thj)
    (hlt : thi.epoch < thj.epoch) (happended : ⟨.append path key, written⟩ ∈ thi.trace)
    (htask : thj.task = .handle buf) (hcarries : Carries buf thj.trace key) :
    (∀ event ∈ thj.trace, ¬ IsRegisterMember event.1) ∧
      ∀ finished, thj.prog = .ret finished →
        ∃ req, Admitted buf req ∧ finished = .responded (usedResponse req key) := by
  have hnot := hP.fresh i j thi thj key written hthi hthj hlt happended
  obtain ⟨q, hrun, -, hfinished⟩ := handle_thread htraced hthj htask
  constructor
  · intro event hevent hcall
    exact hnot (hcarries.reserved (hrun.authorised hevent hcall))
  · intro finished hprog
    obtain ⟨response, rfl, rfl⟩ := hfinished finished hprog
    rcases hcarries.finished hrun with hreserved | ⟨-, req, hreq, rfl⟩
    · exact absurd hreserved hnot
    · exact ⟨req, hreq, rfl⟩

/-- Replay protection survives restarts between requests, in every run whose
configured types are storable: a nullifier that was granted is refused as already
used by every later process, in any case and with any white space around it. -/
theorem refused_after_restart {path : String} (hpath : path ≠ "")
    (actions : List (Action Task Env))
    (hfile : gifter.Guarded (SameFile path) (Pool.initial {}) actions)
    (hbetween : gifter.Guarded BetweenRequests (Pool.initial {}) actions)
    (htypes : gifter.Guarded StorableTypes (Pool.initial {}) actions)
    {i j : Nat} {thi thj : GifterThread} {bufi bufj : List UInt8}
    {authType nul nul' : String} {finished : Finished}
    (hthi : (gifter.run (Pool.initial {}) actions).threads i = some thi)
    (hthj : (gifter.run (Pool.initial {}) actions).threads j = some thj)
    (htaski : thi.task = .handle bufi) (htaskj : thj.task = .handle bufj)
    (hlt : thi.epoch < thj.epoch)
    (hpresents : Presents bufi thi.trace authType nul)
    (hgranted : Granted bufi thi.trace)
    (hpresents' : Presents bufj thj.trace authType nul')
    (hsame : normalize nul' = normalize nul) (hprog : thj.prog = .ret finished) :
    ∃ req, Admitted bufj req ∧
      finished = .responded (usedResponse req (replayKey authType (normalize nul))) := by
  have htraced := gifter.wellTraced_run {} actions
  have hdurable := durable_run hpath hfile htypes
  obtain ⟨done, hdone⟩ := gifter.guarded_stopped (Q := fun th => ∀ buf,
      th.task = .handle buf → ∃ finished, th.prog = .ret finished)
    (fun P hok id th hth hlive buf htask => hok rfl id th buf hth hlive htask) hbetween hthi
    (Nat.lt_of_lt_of_le hlt (htraced j thj hthj).2) bufi htaski
  obtain ⟨q, hrun, -, hresponse⟩ := handle_thread htraced hthi htaski
  obtain ⟨response, rfl, -⟩ := hresponse done hdone
  have hauthorised : Authorised bufi thi.trace := by
    obtain ⟨r, hreturned, -⟩ := hgranted
    exact hreturned.authorised
  have hformed := hpresents.wellFormed hauthorised
  obtain ⟨written, happended⟩ :=
    hgranted.appended hpath hdurable hthi hrun (hpresents.carries hformed)
  have hformed' : wellFormed (normalize nul') = true := by
    rw [hsame]
    exact hformed
  have hcarries := hpresents'.carries hformed'
  rw [hsame] at hcarries
  exact (hdurable.refused htraced hthi hthj hlt happended htaskj hcarries).2 finished hprog

/-- The process does not stop while a request of it that carries a key has its
registration accepted and the key not yet appended. -/
def OutsideWindow (P : GifterPool) (action : Action Task Env) : Prop :=
  action = .restart → ∀ id th buf key, P.threads id = some th → th.epoch = P.epoch →
    th.task = .handle buf → Carries buf th.trace key → Accepted th.trace →
    ∃ path written, ⟨.append path key, written⟩ ∈ th.trace

/-- A crash re-grants no spent credential, in every run whose configured types are
storable and whose process never stops between an accepted registration and the
append of its key. -/
theorem refused_after_crash {path : String} (hpath : path ≠ "")
    (actions : List (Action Task Env))
    (hfile : gifter.Guarded (SameFile path) (Pool.initial {}) actions)
    (hwindow : gifter.Guarded OutsideWindow (Pool.initial {}) actions)
    (htypes : gifter.Guarded StorableTypes (Pool.initial {}) actions)
    {i j : Nat} {thi thj : GifterThread} {bufi bufj : List UInt8} {key : String}
    (hthi : (gifter.run (Pool.initial {}) actions).threads i = some thi)
    (hthj : (gifter.run (Pool.initial {}) actions).threads j = some thj)
    (htaski : thi.task = .handle bufi) (htaskj : thj.task = .handle bufj)
    (hlt : thi.epoch < thj.epoch) (hcarriesi : Carries bufi thi.trace key)
    (haccepted : Accepted thi.trace) (hcarriesj : Carries bufj thj.trace key) :
    (∀ event ∈ thj.trace, ¬ IsRegisterMember event.1) ∧
      ∀ finished, thj.prog = .ret finished →
        ∃ req, Admitted bufj req ∧ finished = .responded (usedResponse req key) := by
  have htraced := gifter.wellTraced_run {} actions
  have hdurable := durable_run hpath hfile htypes
  obtain ⟨path', written, happended⟩ := gifter.guarded_stopped (Q := fun th => ∀ buf key,
      th.task = .handle buf → Carries buf th.trace key → Accepted th.trace →
      ∃ path written, ⟨.append path key, written⟩ ∈ th.trace)
    (fun P hok id th hth hlive buf key htask => hok rfl id th buf key hth hlive htask)
    hwindow hthi (Nat.lt_of_lt_of_le hlt (htraced j thj hthj).2) bufi key htaski hcarriesi
    haccepted
  obtain ⟨q, hrun, -⟩ := handle_thread htraced hthi htaski
  obtain ⟨req, cfg, asked, called, -, htrace, -, rfl⟩ := hrun.appended happended
  have hlocked : ⟨.lockServer, some cfg⟩ ∈ thi.trace := by
    rw [htrace]
    exact List.mem_cons_self
  rw [(hdurable.locked i thi cfg hthi hlocked).path] at happended
  exact hdurable.refused htraced hthi hthj hlt happended htaskj hcarriesj

end Durable

section Scenarios

variable [SerdeJson] [CaseTables] {path t nul nul' : String}

/-- A request at whose operations reads and writes succeed. -/
def Smooth (actions : List (Action Task Env)) : Prop :=
  ∃ id buf envs, actions = System.solo id (.handle buf) envs ∧
    ∀ env ∈ envs, env.readable = true ∧ env.opened = true ∧ env.written = none

omit [CaseTables] in
theorem smooth_registerEnvs (nul : String) (registered : Outcome) :
    ∀ env ∈ registerEnvs nul registered,
      env.readable = true ∧ env.opened = true ∧ env.written = none := by
  simp [registerEnvs, presentEnvs, callEnvs]

omit [CaseTables] in
theorem smooth_granting (id : Nat) : Smooth (granting id t nul) := by
  refine ⟨id, _, _, rfl, ?_⟩
  rw [grantEnvs, List.forall_mem_append]
  exact ⟨smooth_registerEnvs nul _, by simp [callEnvs]⟩

omit [CaseTables] in
theorem smooth_accepting (id : Nat) : Smooth (accepting id t nul) :=
  ⟨id, _, _, rfl, smooth_registerEnvs nul _⟩

omit [CaseTables] in
theorem smooth_presenting (id : Nat) : Smooth (presenting id t nul) := by
  refine ⟨id, _, _, rfl, ?_⟩
  intro env henv
  exact smooth_registerEnvs nul ⟨.timedOut, false⟩ env (List.mem_append_left _ henv)

omit [CaseTables] in
theorem sameFile_bootVouchers (id : Nat) (P : GifterPool) :
    ∀ action ∈ bootVouchers id path t, SameFile path P action := by
  rw [bootVouchers, boot, List.forall_mem_append, System.forall_mem_solo,
    System.forall_mem_solo]
  refine ⟨⟨trivial, ?_⟩, ?_, ?_⟩
  · intro env henv
    rw [List.eq_of_mem_replicate henv]
    exact ⟨rfl, rfl, rfl⟩
  · intro a ha
    rw [fromStr_serveArgs] at ha
    rw [← Except.ok.inj ha, pathOf_serveArgs]
  · intro env henv
    rw [List.eq_of_mem_replicate henv]
    exact ⟨rfl, rfl, rfl⟩

theorem storableTypes_bootVouchers (ht : Storable t) (id : Nat) (P : GifterPool) :
    ∀ action ∈ bootVouchers id path t, StorableTypes P action := by
  rw [bootVouchers, boot, List.forall_mem_append, System.forall_mem_solo,
    System.forall_mem_solo]
  refine ⟨⟨trivial, fun _ _ => trivial⟩, ?_, fun _ _ => trivial⟩
  intro a ha
  rw [fromStr_serveArgs] at ha
  rw [← Except.ok.inj ha, typesOf_serveArgs]
  intro t' ht'
  rwa [List.mem_singleton.mp ht']

/-- Where a guard does not look at the pool, the actions of a restarting run are
checked one by one. -/
theorem guarded_restarting {ok : GifterPool → Action Task Env → Prop}
    {first second : List (Action Task Env)}
    (hpool : ∀ P Q action, ok P action → ok Q action)
    (hboot : ∀ id P, ∀ action ∈ bootVouchers id path t, ok P action)
    (hrequest : ∀ actions P, Smooth actions → ∀ action ∈ actions, ok P action)
    (hrestart : ∀ P, ok P .restart) (hfirst : Smooth first) (hsecond : Smooth second) :
    gifter.Guarded ok (Pool.initial {}) (restarting path t first second) := by
  have hall : ∀ action ∈ restarting path t first second, ok (Pool.initial {}) action := by
    rw [restarting, List.forall_mem_append, List.forall_mem_append, List.forall_mem_cons,
      List.forall_mem_append]
    exact ⟨⟨hboot 0 _, hrequest first _ hfirst⟩, hrestart _, hboot 3 _,
      hrequest second _ hsecond⟩
  exact gifter.guarded_mono (fun P action => hpool _ P action)
    (gifter.guarded_of_forall hall)

theorem sameFile_restarting {first second : List (Action Task Env)} (hfirst : Smooth first)
    (hsecond : Smooth second) :
    gifter.Guarded (SameFile path) (Pool.initial {}) (restarting path t first second) := by
  refine guarded_restarting ?_ sameFile_bootVouchers ?_ (fun _ => trivial) hfirst hsecond
  · rintro P Q (⟨id, _ | argsJson | buf⟩ | ⟨id, env⟩ | _) h
    all_goals exact h
  · rintro actions P ⟨id, buf, envs, rfl, henvs⟩
    exact System.forall_mem_solo.mpr ⟨trivial, henvs⟩

theorem storableTypes_restarting {first second : List (Action Task Env)} (ht : Storable t)
    (hfirst : Smooth first) (hsecond : Smooth second) :
    gifter.Guarded StorableTypes (Pool.initial {}) (restarting path t first second) := by
  refine guarded_restarting ?_ (storableTypes_bootVouchers ht) ?_ (fun _ => trivial) hfirst
    hsecond
  · rintro P Q (⟨id, _ | argsJson | buf⟩ | ⟨id, env⟩ | _) h
    all_goals exact h
  · rintro actions P ⟨id, buf, envs, rfl, henvs⟩
    exact System.forall_mem_solo.mpr ⟨trivial, fun _ _ => trivial⟩

/-- A guard that only looks at restarts is checked where the run restarts. -/
theorem guarded_restarting_once {ok : GifterPool → Action Task Env → Prop}
    {first second : List (Action Task Env)}
    (hother : ∀ P action, action ≠ .restart → ok P action)
    (hrestart : ok (gifter.run (gifter.run (Pool.initial {}) (bootVouchers 0 path t)) first)
      .restart)
    (hfirst : Smooth first) (hsecond : Smooth second) :
    gifter.Guarded ok (Pool.initial {}) (restarting path t first second) := by
  have hquiet : ∀ {P : GifterPool} {actions : List (Action Task Env)},
      (∀ action ∈ actions, action ≠ .restart) → gifter.Guarded ok P actions :=
    fun h => gifter.guarded_mono hother (gifter.guarded_of_forall h)
  have hboot : ∀ id, ∀ action ∈ bootVouchers id path t, action ≠ .restart := by
    intro id
    rw [bootVouchers, boot, List.forall_mem_append, System.forall_mem_solo,
      System.forall_mem_solo]
    simp
  have hsmooth : ∀ {actions : List (Action Task Env)}, Smooth actions →
      ∀ action ∈ actions, action ≠ .restart := by
    rintro actions ⟨id, buf, envs, rfl, henvs⟩
    rw [System.forall_mem_solo]
    simp
  rw [restarting, gifter.guarded_append, gifter.guarded_append, gifter.run_append]
  refine ⟨⟨hquiet (hboot 0), hquiet (hsmooth hfirst)⟩, hrestart, ?_⟩
  rw [gifter.guarded_append]
  exact ⟨hquiet (hboot 3), hquiet (hsmooth hsecond)⟩

/-- The requests of a process that granted one voucher are over. -/
theorem betweenRequests_granted {files : String → Option String} {P₀ B P : GifterPool}
    {trace : Trace} (hboot : Booted path t 0 files P₀ B)
    (hgrants : Grants path t nul 2 trace B P) : BetweenRequests P .restart := by
  intro _ id th buf hth _ htask
  by_cases hid : id = 2
  · obtain ⟨response, hthread, -⟩ := hgrants.thread
    rw [hid, hthread] at hth
    cases hth
    exact ⟨_, rfl⟩
  · rw [hgrants.others id hid] at hth
    exact absurd htask (hboot.hosts id th (Nat.zero_le _) hth buf)

/-- A process that granted one voucher appended it. -/
theorem outsideWindow_granted {files : String → Option String} {P₀ B P : GifterPool}
    {trace : Trace} (hboot : Booted path t 0 files P₀ B)
    (hgrants : Grants path t nul 2 trace B P) : OutsideWindow P .restart := by
  intro _ id th buf key hth _ htask hcarries _
  by_cases hid : id = 2
  · obtain ⟨response, hthread, -⟩ := hgrants.thread
    rw [hid, hthread] at hth
    cases hth
    cases htask
    obtain ⟨authType, nul', hpresents, rfl⟩ := hcarries.presents
    obtain ⟨rfl, rfl⟩ := hpresents.unique hgrants.presents
    exact ⟨path, true, hgrants.appended⟩
  · rw [hgrants.others id hid] at hth
    exact absurd htask (hboot.hosts id th (Nat.zero_le _) hth buf)

/-- What a restarted process loads of a first one that granted one voucher. -/
theorem consumed_restarted {B P B' : GifterPool} {trace : Trace}
    (hboot : Booted path t 0 (fun _ => none) (Pool.initial {}) B)
    (hgrants : Grants path t nul 2 trace B P)
    (hboot' : Booted path t 3 P.shared.files (gifter.step P .restart) B') (hpath : path ≠ "") :
    B'.shared.consumed =
      some (parseNullifiers (nullifierLine (replayKey t (normalize nul)))) := by
  rw [hboot'.consumed, hgrants.file, hboot.files, loadNullifiers, if_neg hpath]
  simp [mergeNullifiers]

/-- A voucher of a storable type is refused after a restart. -/
theorem run_restarted_refused (path t : String) {nul nul' : String} (ht : Storable t)
    (hfits : (requestOf t).encode.length < 2 ^ 64)
    (hformed : wellFormed (normalize nul) = true) (hsame : normalize nul' = normalize nul)
    (hpath : path ≠ "") :
    ∃ B B' trace trace', Booted path t 0 (fun _ => none) (Pool.initial {}) B ∧
      Grants path t nul 2 trace B (gifter.run (gifter.run (Pool.initial {})
        (bootVouchers 0 path t)) (granting 2 t nul)) ∧
      B'.epoch = 1 ∧ B'.threads 2 = (gifter.run (gifter.run (Pool.initial {})
        (bootVouchers 0 path t)) (granting 2 t nul)).threads 2 ∧
      Refuses t nul' (replayKey t (normalize nul)) 5 trace' B' (gifter.run (Pool.initial {})
        (restarting path t (granting 2 t nul) (presenting 5 t nul'))) := by
  have hboot := booted_first path t
  obtain ⟨trace, hgrants⟩ := run_granting nul hboot.serves hfits hformed
    (hboot.consumed ▸ not_isConsumed_fresh _ _) hpath
  have hboot' := booted_restart hgrants.serves
  have hloaded := storable_iff_loads.mp ht _ (isNullifier_normalize hformed)
  obtain ⟨trace', hrefuses⟩ := run_presenting hboot'.serves hfits hformed hsame (by
    rw [consumed_restarted hboot hgrants hboot' hpath]
    exact hloaded)
  rw [run_restarting]
  refine ⟨_, _, trace, trace', hboot, hgrants, ?_, hboot'.earlier 2 (by decide), hrefuses⟩
  rw [hboot'.epoch]
  exact congrArg (· + 1) (hgrants.epoch.trans hboot.epoch)

/-- A voucher whose key does not load back is granted again after a restart. -/
theorem run_regranted (path t : String) {nul : String}
    (hlower : toLowercase (replayKey t (normalize nul)) ≠ replayKey t (normalize nul))
    (hfits : (requestOf t).encode.length < 2 ^ 64)
    (hformed : wellFormed (normalize nul) = true) (hpath : path ≠ "") :
    ∃ B B' trace trace', Booted path t 0 (fun _ => none) (Pool.initial {}) B ∧
      Grants path t nul 2 trace B (gifter.run (gifter.run (Pool.initial {})
        (bootVouchers 0 path t)) (granting 2 t nul)) ∧
      B'.epoch = 1 ∧ B'.threads 2 = (gifter.run (gifter.run (Pool.initial {})
        (bootVouchers 0 path t)) (granting 2 t nul)).threads 2 ∧
      Grants path t nul 5 trace' B' (gifter.run (Pool.initial {})
        (restarting path t (granting 2 t nul) (granting 5 t nul))) := by
  have hboot := booted_first path t
  obtain ⟨trace, hgrants⟩ := run_granting nul hboot.serves hfits hformed
    (hboot.consumed ▸ not_isConsumed_fresh _ _) hpath
  have hboot' := booted_restart hgrants.serves
  obtain ⟨trace', hgrants'⟩ := run_granting nul hboot'.serves hfits hformed (by
    rw [consumed_restarted hboot hgrants hboot' hpath]
    intro hloaded
    exact hlower (storable_of_mem_parse hloaded).lower) hpath
  rw [run_restarting]
  refine ⟨_, _, trace, trace', hboot, hgrants, ?_, hboot'.earlier 2 (by decide), hgrants'⟩
  rw [hboot'.epoch]
  exact congrArg (· + 1) (hgrants.epoch.trans hboot.epoch)

/-- A voucher whose registration was accepted before a crash is granted again after
it. -/
theorem run_crashed (path t : String) {nul : String}
    (hfits : (requestOf t).encode.length < 2 ^ 64)
    (hformed : wellFormed (normalize nul) = true) (hpath : path ≠ "") :
    ∃ B P B' trace trace', Booted path t 0 (fun _ => none) (Pool.initial {}) B ∧
      Accepts path t nul 2 trace B P ∧ B'.epoch = 1 ∧ B'.threads 2 = P.threads 2 ∧
      Grants path t nul 5 trace' B' (gifter.run (Pool.initial {})
        (restarting path t (accepting 2 t nul) (granting 5 t nul))) := by
  have hboot := booted_first path t
  obtain ⟨trace, haccepts⟩ := run_accepting nul hboot.serves hfits hformed
    (hboot.consumed ▸ not_isConsumed_fresh _ _)
  have hboot' := booted_restart haccepts.serves
  obtain ⟨trace', hgrants⟩ := run_granting nul hboot'.serves hfits hformed (by
    rw [hboot'.consumed, haccepts.files, hboot.files]
    exact not_isConsumed_fresh _ _) hpath
  rw [run_restarting]
  refine ⟨_, _, _, trace, trace', hboot, haccepts, ?_, hboot'.earlier 2 (by decide), hgrants⟩
  rw [hboot'.epoch]
  exact congrArg (· + 1) (haccepts.epoch.trans hboot.epoch)

end Scenarios

open Platform in
theorem storable_voucher : Storable "voucher" := by
  constructor
  · decide +kernel
  · decide +kernel
  · have hhead : "voucher".toList.head? = some 'v' := by decide +kernel
    rw [hhead]
    rintro c ⟨⟩
    decide

open Platform in
/-- The voucher `A1` is refused after a restart, in another spelling. -/
theorem refused_after_restart_voucher :
    ∃ thj finished, (gifter.run (Pool.initial {}) (restarting "used" "voucher"
        (granting 2 "voucher" "A1") (presenting 5 "voucher" " a1"))).threads 5 = some thj ∧
      thj.prog = .ret finished ∧ ∃ req, Admitted (requestOf "voucher").encode req ∧
        finished = .responded (usedResponse req (replayKey "voucher" (normalize "A1"))) := by
  have hformed : wellFormed (normalize "A1") = true := by decide +kernel
  have hsame : normalize " a1" = normalize "A1" := by decide +kernel
  obtain ⟨B, B', trace, trace', hboot, hgrants, hepoch, hkept, hrefuses⟩ :=
    run_restarted_refused "used" "voucher" storable_voucher (by decide +kernel) hformed hsame
      (by decide)
  obtain ⟨response, hthread, -⟩ := hgrants.thread
  have hthi := (hrefuses.others 2 (by decide)).trans (hkept.trans hthread)
  refine ⟨_, _, hrefuses.thread, rfl, ?_⟩
  refine refused_after_restart (by decide) _
    (sameFile_restarting (smooth_granting 2) (smooth_presenting 5))
    (guarded_restarting_once (fun P action hne h => absurd h hne)
      (betweenRequests_granted hboot hgrants) (smooth_granting 2) (smooth_presenting 5))
    (storableTypes_restarting storable_voucher (smooth_granting 2) (smooth_presenting 5))
    hthi hrefuses.thread rfl rfl ?_ hgrants.presents hgrants.granted hrefuses.presents hsame rfl
  change B.epoch < B'.epoch
  rw [hepoch, hboot.epoch]
  decide

open Platform in
/-- A voucher type that is not lowercase: the key `Voucher:a1` is loaded as
`voucher:a1`, and the voucher is granted again after a restart. -/
theorem regranted_after_restart :
    let actions := restarting "used" "Voucher" (granting 2 "Voucher" "a1")
      (granting 5 "Voucher" "a1")
    let P := gifter.run (Pool.initial {}) actions
    gifter.Guarded (SameFile "used") (Pool.initial {}) actions ∧
    gifter.Guarded BetweenRequests (Pool.initial {}) actions ∧
    ∃ thi thj response, P.threads 2 = some thi ∧ P.threads 5 = some thj ∧
      thi.epoch < thj.epoch ∧
      Presents (requestOf "Voucher").encode thi.trace "Voucher" "a1" ∧
      Granted (requestOf "Voucher").encode thi.trace ∧
      Presents (requestOf "Voucher").encode thj.trace "Voucher" "a1" ∧
      Granted (requestOf "Voucher").encode thj.trace ∧
      thj.prog = .ret (.responded response) ∧ ∀ req key, response ≠ usedResponse req key := by
  obtain ⟨B, B', trace, trace', hboot, hgrants, hepoch, hkept, hgrants'⟩ :=
    run_regranted "used" "Voucher" (show toLowercase (replayKey "Voucher" (normalize "a1")) ≠
      replayKey "Voucher" (normalize "a1") by decide +kernel) (by decide +kernel)
      (by decide +kernel) (by decide)
  obtain ⟨response, hthread, -⟩ := hgrants.thread
  obtain ⟨response', hthread', hsuccess⟩ := hgrants'.thread
  refine ⟨sameFile_restarting (smooth_granting 2) (smooth_granting 5),
    guarded_restarting_once (fun P action hne h => absurd h hne)
      (betweenRequests_granted hboot hgrants) (smooth_granting 2) (smooth_granting 5),
    _, _, response', (hgrants'.others 2 (by decide)).trans (hkept.trans hthread), hthread', ?_,
    hgrants.presents, hgrants.granted, hgrants'.presents, hgrants'.granted, rfl, ?_⟩
  · change B.epoch < B'.epoch
    rw [hepoch, hboot.epoch]
    decide
  · rintro req key rfl
    cases hsuccess

open Platform in
/-- The voucher `A1`, granted and appended, is refused after the process stopped. -/
theorem refused_after_crash_voucher :
    ∃ thj, (gifter.run (Pool.initial {}) (restarting "used" "voucher"
        (granting 2 "voucher" "A1") (presenting 5 "voucher" " a1"))).threads 5 = some thj ∧
      ∀ event ∈ thj.trace, ¬ IsRegisterMember event.1 := by
  have hformed : wellFormed (normalize "A1") = true := by decide +kernel
  have hsame : normalize " a1" = normalize "A1" := by decide +kernel
  obtain ⟨B, B', trace, trace', hboot, hgrants, hepoch, hkept, hrefuses⟩ :=
    run_restarted_refused "used" "voucher" storable_voucher (by decide +kernel) hformed hsame
      (by decide)
  obtain ⟨response, hthread, -⟩ := hgrants.thread
  have hthi := (hrefuses.others 2 (by decide)).trans (hkept.trans hthread)
  refine ⟨_, hrefuses.thread, ?_⟩
  refine (refused_after_crash (by decide) _
    (sameFile_restarting (smooth_granting 2) (smooth_presenting 5))
    (guarded_restarting_once (fun P action hne h => absurd h hne)
      (outsideWindow_granted hboot hgrants) (smooth_granting 2) (smooth_presenting 5))
    (storableTypes_restarting storable_voucher (smooth_granting 2) (smooth_presenting 5))
    hthi hrefuses.thread rfl rfl ?_ (hgrants.presents.carries hformed) hgrants.accepted
    hrefuses.carries).1
  change B.epoch < B'.epoch
  rw [hepoch, hboot.epoch]
  decide

open Platform in
/-- The process stops after `register_member` accepted the voucher `A1` and before
its key is appended; the voucher is registered again after the restart. -/
theorem regranted_after_crash :
    let actions := restarting "used" "voucher" (accepting 2 "voucher" "A1")
      (granting 5 "voucher" "A1")
    let P := gifter.run (Pool.initial {}) actions
    gifter.Guarded (SameFile "used") (Pool.initial {}) actions ∧
    ∃ thi thj key, P.threads 2 = some thi ∧ P.threads 5 = some thj ∧
      thi.epoch < thj.epoch ∧ Carries (requestOf "voucher").encode thi.trace key ∧
      Accepted thi.trace ∧ Carries (requestOf "voucher").encode thj.trace key ∧
      Accepted thj.trace ∧ Granted (requestOf "voucher").encode thj.trace := by
  have hformed : wellFormed (normalize "A1") = true := by decide +kernel
  obtain ⟨B, P, B', trace, trace', hboot, haccepts, hepoch, hkept, hgrants⟩ :=
    run_crashed "used" "voucher" (by decide +kernel) hformed (by decide)
  obtain ⟨q, hthread⟩ := haccepts.thread
  obtain ⟨response, hthread', -⟩ := hgrants.thread
  refine ⟨sameFile_restarting (smooth_accepting 2) (smooth_granting 5), _, _, _,
    (hgrants.others 2 (by decide)).trans (hkept.trans hthread), hthread', ?_,
    haccepts.presents.carries hformed, haccepts.accepted, hgrants.presents.carries hformed,
    hgrants.accepted, hgrants.granted⟩
  change B.epoch < B'.epoch
  rw [hepoch, hboot.epoch]
  decide

end RlnGifter
