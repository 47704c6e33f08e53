/-
Re-serving and the replay store.  A merge only adds keys, and a key it loaded
leaves the store in one way only: rolled back by a request that already held it
when it was loaded.
-/
import RlnGifter.Replay

namespace RlnGifter

open Program

section Merged

variable [SerdeJson] [CaseTables]

/-- This step is the merge of a `serve`, and the file it loads has `key`. -/
def Loads (P : GifterPool) (action : Action Task Env) (key : String) : Prop :=
  ∃ id path loaded, gifter.performed P action = some (id, ⟨.merge path, loaded⟩) ∧
    key ∈ loaded

/-- A thread of the pool holds `key`. -/
def HeldBy (P : GifterPool) (id : Nat) (key : String) : Prop :=
  ∃ th, P.threads id = some th ∧ Holds th.trace key

/-- No request rolls a key back that a merge loaded while it held the key. -/
def SparesMerged (s : Shared) (actions : List (Action Task Env)) : Prop :=
  ∀ before merge between rollback after id key,
    actions = before ++ merge :: (between ++ rollback :: after) →
    Loads (gifter.run (Pool.initial s) before) merge key →
    gifter.performed (gifter.run (Pool.initial s) (before ++ merge :: between)) rollback =
      some (id, ⟨.release key, ()⟩) →
    ¬ HeldBy (gifter.run (Pool.initial s) before) id key

/-- After a merge loaded `key`, the key is in the store and nobody has reserved it
who had not reserved it then. -/
structure Loaded (before now : GifterPool) (key : String) : Prop where
  consumed : IsConsumed now.shared.consumed key
  reserved : ∀ id th, now.threads id = some th → th.epoch = now.epoch →
    ⟨.reserve key, false⟩ ∈ th.trace →
    ∃ th₀, before.threads id = some th₀ ∧ ⟨.reserve key, false⟩ ∈ th₀.trace ∧
      th₀.trace ⊆ th.trace

omit [SerdeJson] [CaseTables] in
theorem Loaded.held {before now : GifterPool} {key : String}
    (h : Loaded before now key) {id : Nat} {th : GifterThread}
    (hth : now.threads id = some th) (hlive : th.epoch = now.epoch)
    (hholds : Holds th.trace key) : HeldBy before id key := by
  obtain ⟨th₀, hth₀, hreserved, hsub⟩ := h.reserved id th hth hlive hholds.1
  exact ⟨th₀, hth₀, hreserved, fun hreleased => hholds.2 (hsub hreleased)⟩

theorem loaded_merge {P : GifterPool} {action : Action Task Env} {key : String}
    (h : Loads P action key) : Loaded P (gifter.step P action) key := by
  obtain ⟨id, path, loaded, hperformed, hkey⟩ := h
  obtain ⟨env, th, e, next, rfl, hth, hepoch, hprog, hevent, hstep⟩ :=
    gifter.performed_cases hperformed
  obtain ⟨rfl, hanswer⟩ := Sigma.mk.inj_iff.mp hevent
  have hloaded : loaded = (execOp env P.shared (.merge path)).1 := eq_of_heq hanswer
  rw [hloaded] at hkey
  rw [hstep]
  constructor
  · exact isConsumed_merge.mpr (Or.inr hkey)
  · intro other found hfound _ hreserved
    rcases System.put_threads hfound with ⟨rfl, rfl⟩ | ⟨-, hold⟩
    · rcases List.mem_append.mp hreserved with hmem | hmem
      · exact ⟨th, hth, hmem, List.subset_append_left _ _⟩
      · cases List.mem_singleton.mp hmem
    · exact ⟨found, hold, hreserved, fun _ h => h⟩

theorem loaded_step {before P : GifterPool} {key : String}
    (htraced : gifter.WellTraced P) (h : Loaded before P key)
    {action : Action Task Env} (hrestart : action ≠ .restart)
    (hspared : ∀ id, gifter.performed P action = some (id, ⟨.release key, ()⟩) →
      ¬ HeldBy before id key) :
    Loaded before (gifter.step P action) key := by
  rcases gifter.step_cases P action with hstep | ⟨id, task, -, -, hstep⟩ |
    ⟨id, env, th, e, next, rfl, hth, hepoch, hprog, hstep⟩ | ⟨rfl, -⟩
  · rwa [hstep]
  · rw [hstep]
    refine ⟨h.consumed, ?_⟩
    intro other found hfound hlive hreserved
    rcases System.put_threads hfound with ⟨-, rfl⟩ | ⟨-, hold⟩
    · cases hreserved
    · exact h.reserved other found hold hlive hreserved
  · rw [hstep]
    have hphase := thread_storePhase htraced hth
    rw [hprog, pending_op] at hphase
    constructor
    · apply isConsumed_exec _ h.consumed
      rintro rfl
      -- its holder has held the key since before the merge
      exact hspared id (gifter.performed_act hth hepoch hprog)
        (h.held hth hepoch (holds_of_release hphase))
    · intro other found hfound hlive hreserved
      rcases System.put_threads hfound with ⟨rfl, rfl⟩ | ⟨-, hold⟩
      · rcases List.mem_append.mp hreserved with hmem | hmem
        · obtain ⟨th₀, hth₀, hmem₀, hsub⟩ := h.reserved other th hth hepoch hmem
          exact ⟨th₀, hth₀, hmem₀, fun _ h => List.mem_append_left _ (hsub h)⟩
        · exact absurd h.consumed (exec_reserved (List.mem_singleton.mp hmem).symm).1
      · exact h.reserved other found hold hlive hreserved
  · exact absurd rfl hrestart

/-- From the merge on the key stays loaded, as long as the process lives. -/
theorem loaded_run {s : Shared} {before after : List (Action Task Env)}
    {merge : Action Task Env} {key : String}
    (hspares : SparesMerged s (before ++ merge :: after))
    (hloads : Loads (gifter.run (Pool.initial s) before) merge key)
    (hrestart : .restart ∉ after) :
    Loaded (gifter.run (Pool.initial s) before)
      (gifter.run (Pool.initial s) (before ++ merge :: after)) key := by
  induction after using List.reverseRecOn with
  | nil =>
      rw [gifter.run_append]
      exact loaded_merge hloads
  | append_singleton after action ih =>
      rw [List.mem_append, not_or, List.mem_singleton] at hrestart
      have hih : Loaded (gifter.run (Pool.initial s) before)
          (gifter.run (Pool.initial s) (before ++ merge :: after)) key := by
        apply ih _ hrestart.1
        intro before' merge' between rollback after' id k heq
        exact hspares before' merge' between rollback (after' ++ [action]) id k (by
          rw [← List.cons_append, ← List.append_assoc, heq]
          simp)
      have hsplit : before ++ merge :: (after ++ [action]) =
          (before ++ merge :: after) ++ [action] := by simp
      rw [hsplit, gifter.run_append]
      apply loaded_step (gifter.wellTraced_run s _) hih (Ne.symm hrestart.2)
      intro id hperformed
      exact hspares before merge after action [] id key rfl hloads hperformed

/-- Every key a merge loaded is in the store for the rest of the process, and a
request of the process that had not reserved it by then is refused as already
used. -/
def MergedKeysStay (s : Shared) (actions : List (Action Task Env)) : Prop :=
  ∀ before merge after key, actions = before ++ merge :: after →
    Loads (gifter.run (Pool.initial s) before) merge key → .restart ∉ after →
    IsConsumed (gifter.run (Pool.initial s) actions).shared.consumed key ∧
      ∀ id th buf finished,
        (gifter.run (Pool.initial s) actions).threads id = some th →
        th.epoch = (gifter.run (Pool.initial s) actions).epoch →
        th.task = .handle buf → Carries buf th.trace key →
        (∀ th₀, (gifter.run (Pool.initial s) before).threads id = some th₀ →
          ⟨.reserve key, false⟩ ∉ th₀.trace) →
        th.prog = .ret finished →
        ∃ req, Admitted buf req ∧ finished = .responded (usedResponse req key)

/-- Re-serving only adds replay knowledge, in every run in which no request rolls
back a key that was loaded while it held it. -/
theorem merged_keys_stay (s : Shared) (actions : List (Action Task Env))
    (hspares : SparesMerged s actions) : MergedKeysStay s actions := by
  rintro before merge after key rfl hloads hrestart
  have hloaded := loaded_run hspares hloads hrestart
  refine ⟨hloaded.consumed, ?_⟩
  intro id th buf finished hth hlive htask hcarries hlater hprog
  obtain ⟨q, hrun, -, hfinished⟩ := handle_thread (gifter.wellTraced_run s _) hth htask
  obtain ⟨response, rfl, rfl⟩ := hfinished finished hprog
  rcases hcarries.finished hrun with hreserved | ⟨-, req, hreq, rfl⟩
  · obtain ⟨th₀, hth₀, hmem, -⟩ := hloaded.reserved id th hth hlive hreserved
    exact absurd hmem (hlater th₀ hth₀)
  · exact ⟨req, hreq, rfl⟩

end Merged

section Rollback

variable [SerdeJson] [CaseTables] {path other t nul : String}

/-- A request reserves its key and a second `serve`, which names the file `other`, is
about to merge it. -/
def reserving (path other t nul : String) : List (Action Task Env) :=
  bootVouchers 0 path t ++ presenting 2 t nul ++ System.solo 3 (.serve (SerdeJson.toText
    (serveArgs "config" "wallet" other t voucherModule))) [quiet]

/-- The `serve` merges the file, and then the registration of the request fails. -/
def rollingBack (path other t nul : String) (registered : Outcome) :
    List (Action Task Env) :=
  reserving path other t nul ++
    .act 3 quiet :: System.acts 2 (callEnvs registered ++ [quiet])

/-- What is left of a request that has reserved its key. -/
def afterReservation (cfg : ServerCfg) (req : RlnGifterRequest) (key : String) :
    Prog Finished :=
  (registerRequest cfg req >>= settle cfg req (some key)) >>= fun response =>
    .ret (.responded response)

/-- A request that reserved its key and did nothing since. -/
theorem run_reserved {P : GifterPool} {id : Nat} (h : ServesVouchers path t id P)
    (hfits : (requestOf t).encode.length < 2 ^ 64)
    (hformed : wellFormed (normalize nul) = true)
    (hfree : ¬ IsConsumed P.shared.consumed (replayKey t (normalize nul))) :
    ∃ trace, gifter.run P (presenting id t nul) =
      System.put P (P.shared.reserve (replayKey t (normalize nul))) id
        ⟨.handle (requestOf t).encode, P.epoch, afterReservation (vouchersCfg path t)
          (requestOf t) (replayKey t (normalize nul)), trace⟩ := by
  rw [← keyOf_requestOf] at hfree ⊢
  obtain ⟨asked, hdoes, -⟩ := handle_reserved (h.ready.accepting hfits hformed) hfree
    (.done _ _)
  rw [List.append_nil] at hdoes
  exact ⟨_, run_task (h.unborn id (le_refl _)) hdoes⟩

/-- The rest of a request whose registration fails: the key is rolled back. -/
theorem afterReservation_fails (cfg : ServerCfg) (req : RlnGifterRequest) (key : String)
    (s : Shared) {registered : Outcome} {msg : String} (hrln : rlnModule ∈ s.clients)
    (hresult : moduleResult "register_member" registered.seen = .error msg) :
    ∃ trace finished, Does execOp (afterReservation cfg req key) s
      (callEnvs registered ++ [quiet]) trace (.ret finished)
      { s with consumed := releaseNullifier s.consumed key } := by
  have hregister : Does execOp (registerRequest cfg req) s (callEnvs registered) _ _ _ :=
    register_fails hrln hresult
  have hsettle : Does execOp (settle cfg req (some key) (.error (.notSubmitted msg))) s
      [quiet] [⟨.release key, ()⟩] (.ret (settleResponse req (.error (.notSubmitted msg))))
      { s with consumed := releaseNullifier s.consumed key } := .act (.done _ _)
  have hall := (hregister.bind hsettle).bind (f := fun response =>
    (.ret (.responded response) : Prog Finished)) (.done _ _)
  rw [List.append_nil, List.append_nil] at hall
  exact ⟨_, _, hall⟩

/-- The pool in which the second `serve` is about to merge. -/
theorem run_reserving (path other : String) {files : String → Option String}
    (hfits : (requestOf t).encode.length < 2 ^ 64)
    (hformed : wellFormed (normalize nul) = true) (hfile : files path = none) :
    ∃ P th next trace, gifter.run (Pool.initial { files := files })
        (reserving path other t nul) = P ∧
      P.threads 3 = some ⟨th, P.epoch, .op (.merge other) next, trace⟩ ∧
      (∃ trace, P.threads 2 = some ⟨.handle (requestOf t).encode, P.epoch, afterReservation
        (vouchersCfg path t) (requestOf t) (replayKey t (normalize nul)), trace⟩) ∧
      P.shared.files = files ∧ rlnModule ∈ P.shared.clients := by
  have hboot : Booted path t 0 files (Pool.initial { files := files }) _ :=
    run_bootVouchers path t rfl (fun _ _ => rfl)
  have hfree : ¬ IsConsumed (gifter.run (Pool.initial { files := files })
      (bootVouchers 0 path t)).shared.consumed (replayKey t (normalize nul)) := by
    rw [hboot.consumed, hfile]
    exact not_isConsumed_fresh _ _
  obtain ⟨trace, hreserved⟩ := run_reserved hboot.serves hfits hformed hfree
  rw [reserving, gifter.run_append, gifter.run_append, hreserved]
  generalize gifter.run (Pool.initial { files := files }) (bootVouchers 0 path t) = B at hboot
  have hserves := hboot.serves
  have hclient : voucherModule ∈ (B.shared.reserve (replayKey t (normalize nul))).clients :=
    hserves.ready.client
  have hmerging : Does execOp (taskBody (.serve (SerdeJson.toText
      (serveArgs "config" "wallet" other t voucherModule)))) _ _ _ _ _ :=
    serve_merging (by decide) (ensureClient_found hclient)
  refine ⟨_, _, _, _, run_task ?_ hmerging, System.put_same _ _ _ _, ⟨trace, ?_⟩, hboot.files,
    hserves.ready.rln⟩
  · exact (System.put_other (by decide)).trans (hserves.unborn 3 (by decide))
  · rw [System.put_other (by decide)]
    exact System.put_same _ _ _ _

/-- A key that is loaded while a request holds it goes when that request fails. -/
theorem rollingBack_forgets {files : String → Option String} {registered : Outcome}
    {msg : String} (hfits : (requestOf t).encode.length < 2 ^ 64)
    (hformed : wellFormed (normalize nul) = true)
    (hresult : moduleResult "register_member" registered.seen = .error msg)
    (hfile : files path = none)
    (hloads : replayKey t (normalize nul) ∈ loadNullifiers other (files other)) :
    ¬ MergedKeysStay { files := files } (rollingBack path other t nul registered) := by
  intro hstay
  obtain ⟨P, task, next, trace, hrun, hserve, ⟨trace', hrequest⟩, hfiles, hrln⟩ :=
    run_reserving path other hfits hformed hfile
  have hmerge : Loads P (.act 3 quiet) (replayKey t (normalize nul)) := by
    refine ⟨3, other, _, gifter.performed_act hserve rfl rfl, ?_⟩
    change _ ∈ loadNullifiers other (P.shared.files other)
    rw [hfiles]
    exact hloads
  have hmerged := gifter.run_acts hserve rfl (.step (execOp_merge P.shared other) (.done _ _))
  obtain ⟨rest, finished, hdoes⟩ := afterReservation_fails (vouchersCfg path t) (requestOf t)
    (replayKey t (normalize nul)) (P.shared.merge other) hrln hresult
  have hthread : ∀ th, (System.put P (P.shared.merge other) 3 th).threads 2 = _ := fun _ =>
    (System.put_other (by decide)).trans hrequest
  have hgone := (hstay (reserving path other t nul) (.act 3 quiet) _ _ rfl
    (by rw [hrun]; exact hmerge) (by simp [System.acts])).1
  rw [rollingBack, gifter.run_append, hrun] at hgone
  change IsConsumed (gifter.run (gifter.run P (System.acts 3 [quiet]))
    (System.acts 2 (callEnvs registered ++ [quiet]))).shared.consumed _ at hgone
  rw [hmerged, gifter.run_acts (hthread _) rfl hdoes] at hgone
  change IsConsumed (releaseNullifier (P.shared.merge other).consumed
    (replayKey t (normalize nul))) _ at hgone
  exact (isConsumed_release.mp hgone).1 rfl

/-- A run in which nothing is rolled back. -/
theorem sparesMerged_of_no_release {s : Shared} {actions : List (Action Task Env)}
    (h : ∀ id th key, (gifter.run (Pool.initial s) actions).threads id = some th →
      ⟨.release key, ()⟩ ∉ th.trace) : SparesMerged s actions := by
  rintro before merge between rollback after id key rfl _ hperformed
  obtain ⟨th, hth, hmem⟩ := gifter.performed_mem_run hperformed after
  rw [← gifter.run_cons, ← gifter.run_append, List.append_assoc, List.cons_append] at hth
  exact absurd hmem (h id th key hth)

/-- A voucher that the file has is refused, and nothing is rolled back. -/
theorem sparesMerged_presenting {files : String → Option String}
    (hfits : (requestOf t).encode.length < 2 ^ 64)
    (hformed : wellFormed (normalize nul) = true)
    (hloads : replayKey t (normalize nul) ∈ loadNullifiers path (files path)) :
    SparesMerged { files := files } (bootVouchers 0 path t ++ presenting 2 t nul) := by
  have hboot : Booted path t 0 files (Pool.initial { files := files }) _ :=
    run_bootVouchers path t rfl (fun _ _ => rfl)
  obtain ⟨trace, hrefuses⟩ := run_presenting hboot.serves hfits hformed rfl (by
    rw [hboot.consumed]
    exact isConsumed_merge.mpr (Or.inr hloads))
  rw [← gifter.run_append] at hrefuses
  have htraced := gifter.wellTraced_run { files := files }
    (bootVouchers 0 path t ++ presenting 2 t nul)
  apply sparesMerged_of_no_release
  intro id th key hth hmem
  by_cases hid : id = 2
  · subst hid
    have hphase := thread_storePhase htraced hth
    cases hth.symm.trans hrefuses.thread
    have hevents := hphase.of_used ((mem_storeEvents rfl).mpr hrefuses.used)
    rw [← mem_storeEvents rfl, hevents] at hmem
    simp at hmem
  · obtain ⟨buf, htask⟩ := handle_of_store htraced hth hmem rfl
    rw [hrefuses.others id hid] at hth
    exact hboot.hosts id th (Nat.zero_le _) hth buf htask

end Rollback

/-- A file that has the voucher `a1`. -/
def usedVouchers (path : String) : Option String :=
  if path = "b" then some "voucher:a1\n" else none

open Platform in
/-- A voucher that the file has is presented. -/
theorem merged_keys_stay_voucher :
    MergedKeysStay { files := usedVouchers }
      (bootVouchers 0 "b" "voucher" ++ presenting 2 "voucher" "A1") :=
  merged_keys_stay _ _ (sparesMerged_presenting (by decide +kernel) (by decide +kernel)
    (by decide +kernel))

open Platform in
/-- The voucher `A1` is reserved, a second `serve` loads a file that has it, and the
registration fails: the voucher is gone from the store. -/
theorem merged_key_rolled_back :
    ¬ MergedKeysStay { files := usedVouchers }
      (rollingBack "a" "b" "voucher" "A1" ⟨.dispatchFailed 1, false⟩) := by
  apply rollingBack_forgets (by decide +kernel) (by decide +kernel) rfl (by decide)
  decide +kernel

end RlnGifter
