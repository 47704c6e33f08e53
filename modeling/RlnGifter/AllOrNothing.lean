/-
What a request that runs alone leaves of the replay state: everything as it was,
or one new key in the set and on a line of the file.
-/
import RlnGifter.Alone
import RlnGifter.Platform

namespace RlnGifter

open Program

/-- What a worker does to ask: look up, call and read the clock. -/
def Consulting : Op → Prop
  | .findClient _ | .readOwner | .invokeAsync _ _ _ _ | .pastDeadline => True
  | _ => False

theorem Lookup.consulting {e : Op} (h : Lookup e) : Consulting e := by
  cases e <;> trivial

section Consult

variable [CaseTables]

/-- Asking changes nothing, and is answered by the clients and the owner. -/
theorem execOp_consulting {e : Op} (h : Consulting e) (env : Env) {s t : Shared}
    (hclients : t.clients = s.clients) (howner : t.owner = s.owner) :
    execOp env t e = ((execOp env s e).1, t) := by
  cases e with
  | findClient target => simp [execOp, hclients]
  | readOwner => simp [execOp, howner]
  | invokeAsync target method args timeoutMs => rfl
  | pastDeadline => rfl
  | _ => cases h

/-- So a run that only asks leaves the state, and is one from every state with these
clients and this owner. -/
theorem does_consulting {α : Type} {p q : Prog α} {s s' : Shared} {envs : List Env}
    {trace : Trace} (h : Does execOp p s envs trace q s')
    (htrace : ∀ event ∈ trace, Consulting event.1) :
    s' = s ∧ ∀ t : Shared, t.clients = s.clients → t.owner = s.owner →
      Does execOp p t envs trace q t := by
  induction h with
  | done p s => exact ⟨rfl, fun t _ _ => .done _ _⟩
  | @act e next s s' env envs trace q _ ih =>
      obtain ⟨he, hrest⟩ := List.forall_mem_cons.mp htrace
      have hexec : ∀ t : Shared, t.clients = s.clients → t.owner = s.owner →
          execOp env t e = ((execOp env s e).1, t) := fun t hclients howner =>
        execOp_consulting he env hclients howner
      have hsame : (execOp env s e).2 = s := congrArg Prod.snd (hexec s rfl rfl)
      rw [hsame] at ih
      obtain ⟨rfl, htransfer⟩ := ih hrest
      exact ⟨rfl, fun t hclients howner =>
        .step (hexec t hclients howner) (htransfer t hclients howner)⟩

variable [SerdeJson] {cfg : ServerCfg} {req : RlnGifterRequest} {authType : String}
  {rate : UInt64}

omit [CaseTables] in
theorem Asking.consulting {e : Op} (h : Asking cfg req authType rate e) : Consulting e := by
  rcases h with h | ⟨verifier, verifierConfig, verifyJson, -, -, rfl⟩
  · exact h.consulting
  · trivial

omit [CaseTables] in
theorem register_consulting {called : Trace}
    {q : Prog (Except RegisterError MembershipAllocationSuccess)}
    (h : (registerRequest cfg req).After called q) :
    ∀ event ∈ called, Consulting event.1 := by
  intro event hevent
  rcases (only_after register_only h).1 event hevent with (hlookup | hcall | hclock) | hcall
  · exact hlookup.consulting
  · rw [hcall]
    trivial
  · rw [hclock]
    trivial
  · rw [hcall]
    trivial

end Consult

/-- The replay state is as it was: the same set of keys, the same files. -/
structure SameReplay (s s' : Shared) : Prop where
  consumed : s'.consumed.getD ∅ = s.consumed.getD ∅
  files : s'.files = s.files

section Keys

theorem SameReplay.refl (s : Shared) : SameReplay s s :=
  ⟨rfl, rfl⟩

theorem getD_reserve_used {consumed : Option (Finset String)} {key : String}
    (h : (reserveNullifier consumed key).1 = true) :
    (reserveNullifier consumed key).2.getD ∅ = consumed.getD ∅ := by
  ext other
  have hmem := @isConsumed_reserve consumed key other
  rw [reserveNullifier_fst] at h
  simp only [IsConsumed] at hmem h
  rw [hmem]
  constructor
  · rintro (rfl | hother)
    · exact h
    · exact hother
  · exact Or.inr

theorem getD_reserve (consumed : Option (Finset String)) (key : String) :
    (reserveNullifier consumed key).2.getD ∅ = insert key (consumed.getD ∅) := by
  ext other
  rw [Finset.mem_insert]
  exact isConsumed_reserve

/-- Rolling back what was reserved restores the set. -/
theorem getD_release_reserve {consumed : Option (Finset String)} {key : String}
    (h : ¬ IsConsumed consumed key) :
    (releaseNullifier (reserveNullifier consumed key).2 key).getD ∅ = consumed.getD ∅ := by
  ext other
  have hrelease := @isConsumed_release (reserveNullifier consumed key).2 key other
  have hreserve := @isConsumed_reserve consumed key other
  simp only [IsConsumed] at hrelease hreserve h
  rw [hrelease, hreserve]
  constructor
  · rintro ⟨hne, rfl | hother⟩
    · exact absurd rfl hne
    · exact hother
  · intro hother
    refine ⟨?_, Or.inr hother⟩
    rintro rfl
    exact h hother

end Keys

section Request

variable [SerdeJson] [CaseTables]

/-- In this trace the request got past authentication with `key`, and its `register`
returned `r`. -/
structure Registered (buf : List UInt8) (trace : Trace) (req : RlnGifterRequest)
    (cfg : ServerCfg) (asked : Trace) (key : Option String) (called : Trace)
    (r : Except RegisterError MembershipAllocationSuccess) : Prop where
  admitted : Admitted buf req
  split : ∃ last, trace = ⟨.lockServer, some cfg⟩ :: (asked ++ (called ++ last))
  authenticated : (authenticateRequest cfg req).After asked (.ret (.ok key))
  returned : (registerRequest cfg req).After called (.ret r)

variable {buf : List UInt8} {trace : Trace} {req : RlnGifterRequest} {cfg : ServerCfg}
  {asked called : Trace} {key : Option String}
  {r : Except RegisterError MembershipAllocationSuccess} {s s' : Shared} {envs : List Env}
  {response : RlnGifterResponse}

/-- A request that is taken up, run alone: the lock, the authentication, and what
follows it. -/
theorem handleRequest_does (hreq : Admitted buf req)
    (h : Does execOp (handleRequest buf) s envs trace (.ret response) s') :
    ∃ env envs' trace', envs = env :: envs' ∧ trace = ⟨.lockServer, s.server⟩ :: trace' ∧
      ∀ cfg, s.server = some cfg →
        Does execOp (authenticateRequest cfg req >>= fun
          | .error response => return response
          | .ok key => do
              let registered ← registerRequest cfg req
              settle cfg req key registered) s envs' trace' (.ret response) s' := by
  simp only [handleRequest, hreq.decoded, hreq.length, ne_eq, not_true_eq_false, ↓reduceIte,
    perform_bind] at h
  obtain ⟨env, envs', trace', rfl, rfl, hrest⟩ := does_op h
  refine ⟨env, envs', trace', rfl, rfl, ?_⟩
  intro cfg hserver
  simp only [execOp, hserver] at hrest
  exact hrest

/-- The parts of a request whose `register` returned. -/
theorem Registered.does (hreg : Registered buf trace req cfg asked key called r)
    (h : Does execOp (handleRequest buf) s envs trace (.ret response) s') :
    s.server = some cfg ∧ ∃ env first second third last reserved,
      envs = env :: (first ++ (second ++ third)) ∧
      Does execOp (authenticateRequest cfg req) s first asked (.ret (.ok key)) reserved ∧
      Does execOp (registerRequest cfg req) reserved second called (.ret r) reserved ∧
      Does execOp (settle cfg req key r) reserved third last (.ret response) s' := by
  obtain ⟨last, rfl⟩ := hreg.split
  obtain ⟨env, envs', trace', rfl, htrace, hrest⟩ := handleRequest_does hreg.admitted h
  obtain ⟨hlock, htail⟩ := List.cons.inj htrace
  have hserver : s.server = some cfg := (eq_of_heq (Sigma.mk.inj hlock).2).symm
  refine ⟨hserver, ?_⟩
  obtain ⟨first, rest, head, tail, result, reserved, rfl, rfl, hauth, hrest⟩ :=
    does_bind (hrest cfg hserver)
  obtain ⟨rfl, rfl, rfl⟩ := after_ret_unique hreg.authenticated hauth.after htail
  obtain ⟨second, third, head', tail', r', registered, rfl, hsplit, hregister, hsettle⟩ :=
    does_bind hrest
  obtain ⟨rfl, rfl, rfl⟩ := after_ret_unique hreg.returned hregister.after hsplit
  obtain ⟨rfl, -⟩ := does_consulting hregister (register_consulting hregister.after)
  exact ⟨env, first, second, third, last, registered, rfl, hauth, hregister, hsettle⟩

/-- What authentication leaves: the state as it was, or with one new key. -/
theorem authenticate_leaves {first : List Env} {reserved : Shared}
    (h : Does execOp (authenticateRequest cfg req) s first asked (.ret (.ok key)) reserved) :
    (key = none ∧ reserved = s) ∨ ∃ k, key = some k ∧ ¬ IsConsumed s.consumed k ∧
      reserved = s.reserve k := by
  rcases authenticate_ok h.after with ⟨-, rfl, rfl⟩ | ⟨verifier, verdict, hverified, -, rfl⟩ |
    ⟨verified, verifier, verdict, nul, hverified, -, -, rfl, rfl⟩
  · exact Or.inl ⟨rfl, (does_consulting h (by simp)).1⟩
  · exact Or.inl ⟨rfl, (does_consulting h fun event hevent =>
      (hverified.asking event hevent).consulting).1⟩
  · obtain ⟨head, tail, mid, r, rfl, hverify, hreserve⟩ := does_append h
    obtain ⟨rfl, -⟩ := does_consulting hverify fun event hevent =>
      (hverified.asking event hevent).consulting
    obtain ⟨env, next, -, -, hexec, -⟩ := does_single hreserve
    obtain ⟨hfree, rfl⟩ := Prod.ext_iff.mp hexec
    refine Or.inr ⟨_, rfl, ?_, rfl⟩
    rw [← reserveNullifier_fst]
    exact ne_true_of_eq_false hfree

omit [SerdeJson] in
/-- What settling leaves: without a key, the state; with one that was not submitted,
the key released; with any other, the key on a line of the file, if there is one. -/
theorem settle_leaves {third : List Env} {last : Trace} {reserved : Shared}
    (hwritten : ∀ env ∈ third, env.opened = true ∧ env.written = none)
    (h : Does execOp (settle cfg req key r) reserved third last (.ret response) s') :
    response = settleResponse req r ∧ match key, r with
      | none, _ => s' = reserved
      | some k, .error (.notSubmitted _) =>
          s' = { reserved with consumed := releaseNullifier reserved.consumed k }
      | some k, _ =>
          s' = if cfg.nullifiersPath = "" then reserved
            else reserved.append cfg.nullifiersPath k := by
  have hquiet : settleOp cfg key r = none →
      response = settleResponse req r ∧ s' = reserved := by
    intro hop
    rw [settle_eq, hop] at h
    obtain ⟨-, -, hresponse, rfl⟩ := does_ret h
    exact ⟨Program.ret.inj hresponse, rfl⟩
  have hact : ∀ e, settleOp cfg key r = some e → response = settleResponse req r ∧
      ∃ env ∈ third, s' = (execOp env reserved e).2 := by
    intro e hop
    rw [settle_eq, hop] at h
    obtain ⟨env, envs', trace', rfl, -, hrest⟩ := does_op h
    obtain ⟨-, -, hresponse, rfl⟩ := does_ret hrest
    exact ⟨Program.ret.inj hresponse, env, List.mem_cons_self, rfl⟩
  have happend : ∀ k, key = some k → (∀ msg, r ≠ .error (.notSubmitted msg)) →
      response = settleResponse req r ∧ s' = if cfg.nullifiersPath = "" then reserved
        else reserved.append cfg.nullifiersPath k := by
    rintro k rfl hr
    by_cases hpath : cfg.nullifiersPath = ""
    · rw [if_pos hpath]
      apply hquiet
      rcases r with (msg | msg) | success
      · exact absurd rfl (hr msg)
      · simp [settleOp, hpath]
      · simp [settleOp, hpath]
    · rw [if_neg hpath]
      obtain ⟨hresponse, env, henv, rfl⟩ := hact _ (settleOp_kept hpath hr)
      obtain ⟨hopened, hall⟩ := hwritten env henv
      exact ⟨hresponse, by simp [execOp, hopened, hall, writtenPart, Shared.append]⟩
  rcases key with - | k
  · apply hquiet
    rcases r with (msg | msg) | success <;> simp [settleOp]
  · rcases r with (msg | msg) | success
    · obtain ⟨hresponse, env, -, rfl⟩ := hact (.release k) rfl
      exact ⟨hresponse, rfl⟩
    · exact happend k rfl (by simp)
    · exact happend k rfl (by simp)

/-- A refusal leaves the replay state. -/
theorem authenticate_refused {first : List Env}
    (h : Does execOp (authenticateRequest cfg req) s first asked (.ret (.error response)) s') :
    SameReplay s s' := by
  have hrun := authenticate_after h.after
  generalize hq : (Program.ret (.error response) :
    Prog (Except RlnGifterResponse (Option String))) = q at hrun
  cases hrun with
  | opened => cases hq
  | asking => cases hq
  | refused _ hasked =>
      obtain ⟨rfl, -⟩ := does_consulting h fun event hevent => (hasked event hevent).consulting
      exact .refl _
  | accepted => cases hq
  | reserving => cases hq
  | used verified verifier verdict hverified nul =>
      obtain ⟨head, tail, mid, r, rfl, hverify, hreserve⟩ := does_append h
      obtain ⟨rfl, -⟩ := does_consulting hverify fun event hevent =>
        (hverified.asking event hevent).consulting
      obtain ⟨env, next, -, -, hexec, -⟩ := does_single hreserve
      obtain ⟨hused, rfl⟩ := Prod.ext_iff.mp hexec
      exact ⟨getD_reserve_used hused, rfl⟩
  | reserved => cases hq

/-- A request whose `register` never returned leaves the replay state. -/
theorem unregistered_leaves
    (h : Does execOp (handleRequest buf) s envs trace (.ret response) s')
    (hnot : ¬ ∃ r, RegisterReturned buf trace r) : SameReplay s s' := by
  have hrun := handleRequest_after h.after
  generalize hq : (Program.ret response : Prog RlnGifterResponse) = q at hrun
  cases hrun with
  | malformed e =>
      obtain ⟨-, -, rfl⟩ := does_nil h
      exact .refl _
  | missized req =>
      obtain ⟨-, -, rfl⟩ := does_nil h
      exact .refl _
  | starting => cases hq
  | unconfigured req =>
      obtain ⟨env, next, -, -, hexec, -⟩ := does_single h
      obtain ⟨-, rfl⟩ := Prod.ext_iff.mp hexec
      exact .refl _
  | authenticating => cases hq
  | refused req hreq cfg asked response' hauth =>
      obtain ⟨env, envs', trace', -, htrace, hrest⟩ := handleRequest_does hreq h
      obtain ⟨hlock, rfl⟩ := List.cons.inj htrace
      have hserver : s.server = some cfg := (eq_of_heq (Sigma.mk.inj hlock).2).symm
      obtain ⟨first, rest, head, tail, result, mid, -, hsplit, hauth', hlast⟩ :=
        does_bind (hrest cfg hserver)
      obtain ⟨rfl, rfl, rfl⟩ := after_ret_unique hauth hauth'.after
        ((List.append_nil _).trans hsplit)
      obtain ⟨-, -, rfl⟩ := does_nil hlast
      exact authenticate_refused hauth'
  | registering => cases hq
  | settling req hreq cfg asked key hauth called r hregister last =>
      exact absurd ⟨r, req, cfg, asked, called, last, key, hreq, rfl, hauth, hregister⟩ hnot

omit [CaseTables] in
theorem Verified.not_open {verified : Trace} {verifier : String} {verdict : Verdict}
    (h : Verified cfg req (authTypeOf req) (effectiveRate cfg req) verified verifier verdict) :
    cfg.authVerifiers ≠ [] := by
  obtain ⟨verifierConfig, verifyJson, found, outcome, reply, hlookup, -⟩ := h
  intro hopen
  rw [hopen] at hlookup
  cases hlookup

/-- An open gifter reserves no key, and no more does a verdict without nullifier. -/
theorem key_eq_none (h : (authenticateRequest cfg req).After asked (.ret (.ok key)))
    (hwithout : cfg.authVerifiers = [] ∨ ∃ verifier verdict,
      Verified cfg req (authTypeOf req) (effectiveRate cfg req) asked verifier verdict ∧
        verdict.nullifier = none) : key = none := by
  rcases authenticate_ok h with ⟨-, -, rfl⟩ | ⟨verifier, verdict, -, -, rfl⟩ |
    ⟨verified, verifier, verdict, nul, hverified, -, -, rfl, -⟩
  · rfl
  · rfl
  · rcases hwithout with hopen | ⟨verifier', verdict', hverified', -⟩
    · exact absurd hopen hverified.not_open
    · exact absurd (hverified'.asking _ (List.mem_append_right _ List.mem_cons_self)).consulting
        id

/-- The key of a verdict with a nullifier is that of the nullifier. -/
theorem key_eq_some {verified rest : Trace} {verifier nul : String} {verdict : Verdict}
    (h : (authenticateRequest cfg req).After asked (.ret (.ok key)))
    (hasked : asked = verified ++ rest)
    (hverified : Verified cfg req (authTypeOf req) (effectiveRate cfg req) verified verifier
      verdict) (hnul : verdict.nullifier = some nul) : key = some (keyOf req nul) := by
  rcases authenticate_ok h with ⟨hopen, -, -⟩ | ⟨verifier', verdict', hverified', hnone, -⟩ |
    ⟨verified', verifier', verdict', nul', hverified', hnul', -, hasked', rfl⟩
  · exact absurd hopen hverified.not_open
  · obtain ⟨-, -, rfl, -⟩ := hverified'.unique hverified ((List.append_nil _).trans hasked)
    rw [hnone] at hnul
    cases hnul
  · obtain ⟨-, -, rfl, -⟩ := hverified'.unique hverified (hasked'.symm.trans hasked)
    rw [hnul'] at hnul
    cases hnul
    rfl

/-- Authentication that succeeded once does so again in a state with the same
clients and owner that holds the same keys. -/
theorem authenticate_again {first : List Env} {reserved t : Shared}
    (h : Does execOp (authenticateRequest cfg req) s first asked (.ret (.ok key)) reserved)
    (hclients : t.clients = s.clients) (howner : t.owner = s.owner)
    (hconsumed : t.consumed.getD ∅ = s.consumed.getD ∅) :
    ∃ reserved', Does execOp (authenticateRequest cfg req) t first asked (.ret (.ok key))
      reserved' ∧ reserved'.clients = t.clients ∧ reserved'.owner = t.owner := by
  rcases authenticate_ok h.after with ⟨-, rfl, rfl⟩ | ⟨verifier, verdict, hverified, -, rfl⟩ |
    ⟨verified, verifier, verdict, nul, hverified, -, -, rfl, rfl⟩
  · exact ⟨t, (does_consulting h (by simp)).2 t hclients howner, rfl, rfl⟩
  · exact ⟨t, (does_consulting h fun event hevent =>
      (hverified.asking event hevent).consulting).2 t hclients howner, rfl, rfl⟩
  · obtain ⟨head, tail, mid, r, rfl, hverify, hreserve⟩ := does_append h
    obtain ⟨rfl, htransfer⟩ := does_consulting hverify fun event hevent =>
      (hverified.asking event hevent).consulting
    obtain ⟨env, next, rfl, rfl, hexec, hret⟩ := does_single hreserve
    have hfree : ¬ IsConsumed t.consumed (keyOf req nul) := by
      rw [IsConsumed, hconsumed, ← IsConsumed, ← reserveNullifier_fst]
      exact ne_true_of_eq_false (Prod.ext_iff.mp hexec).1
    have hexec' : execOp env t (.reserve (keyOf req nul)) =
        (false, t.reserve (keyOf req nul)) := by
      refine Prod.ext ?_ rfl
      exact Bool.eq_false_iff.mpr fun hused => hfree (reserveNullifier_fst.mp hused)
    refine ⟨t.reserve (keyOf req nul), (htransfer t hclients howner).trans ?_, rfl, rfl⟩
    rw [hret]
    exact .step hexec' (.done _ _)

/-- What holds of the replay state around one request that runs alone. -/
structure AllOrNothing (buf : List UInt8) (trace : Trace) (s s' : Shared) : Prop where
  refused : (¬ ∃ r, RegisterReturned buf trace r) → SameReplay s s'
  unsubmitted : ∀ {req cfg asked key called msg},
    Registered buf trace req cfg asked key called (.error (.notSubmitted msg)) →
      SameReplay s s'
  unkeyed : ∀ {req cfg asked key called r},
    Registered buf trace req cfg asked key called r →
    (cfg.authVerifiers = [] ∨ ∃ verifier verdict,
      Verified cfg req (authTypeOf req) (effectiveRate cfg req) asked verifier verdict ∧
        verdict.nullifier = none) →
      SameReplay s s'
  kept : ∀ {req cfg asked key called r verified rest verifier verdict nul},
    Registered buf trace req cfg asked key called r →
    (∀ msg, r ≠ .error (.notSubmitted msg)) →
    asked = verified ++ rest →
    Verified cfg req (authTypeOf req) (effectiveRate cfg req) verified verifier verdict →
    verdict.nullifier = some nul →
      keyOf req nul ∉ s.consumed.getD ∅ ∧
      s'.consumed.getD ∅ = insert (keyOf req nul) (s.consumed.getD ∅) ∧
      s'.files = if cfg.nullifiersPath = "" then s.files
        else Function.update s.files cfg.nullifiersPath
          (some ((s.files cfg.nullifiersPath).getD "" ++ nullifierLine (keyOf req nul)))
  /-- A request that was not submitted succeeds when it is tried again with the same
  verdict and a registry that accepts. -/
  retried : ∀ {req cfg asked key called msg},
    Registered buf trace req cfg asked key called (.error (.notSubmitted msg)) →
    ∀ {envs' called' success registered},
      Does execOp (registerRequest cfg req) s' envs' called' (.ret (.ok success))
        registered →
      ∃ envs'' last t, Does execOp (handleRequest buf) s' envs''
        (⟨.lockServer, some cfg⟩ :: (asked ++ (called' ++ last)))
        (.ret (settleResponse req (.ok success))) t

theorem Registered.unsubmitted {msg : String}
    (hreg : Registered buf trace req cfg asked key called (.error (.notSubmitted msg)))
    (h : Does execOp (handleRequest buf) s envs trace (.ret response) s')
    (hwritten : ∀ env ∈ envs, env.opened = true ∧ env.written = none) :
    SameReplay s s' ∧ s'.server = s.server ∧ s'.clients = s.clients ∧ s'.owner = s.owner := by
  obtain ⟨-, env, first, second, third, last, reserved, rfl, hauth, -, hsettle⟩ := hreg.does h
  obtain ⟨-, hleft⟩ := settle_leaves (fun env henv => hwritten env (by simp [henv])) hsettle
  rcases authenticate_leaves hauth with ⟨rfl, rfl⟩ | ⟨k, rfl, hfree, rfl⟩
  · obtain rfl : s' = reserved := hleft
    exact ⟨.refl _, rfl, rfl, rfl⟩
  · obtain rfl : s' = { s.reserve k with
      consumed := releaseNullifier (s.reserve k).consumed k } := hleft
    exact ⟨⟨getD_release_reserve hfree, rfl⟩, rfl, rfl, rfl⟩

/-- Every request that runs alone, whose writes go through, changes the replay state
by all of its key or by nothing. -/
theorem handle_allOrNothing
    (h : Does execOp (handleRequest buf) s envs trace (.ret response) s')
    (hwritten : ∀ env ∈ envs, env.opened = true ∧ env.written = none) :
    AllOrNothing buf trace s s' := by
  constructor
  · exact unregistered_leaves h
  · intro req cfg asked key called msg hreg
    exact (hreg.unsubmitted h hwritten).1
  · intro req cfg asked key called r hreg hwithout
    obtain ⟨-, env, first, second, third, last, reserved, rfl, hauth, -, hsettle⟩ :=
      hreg.does h
    obtain ⟨-, hleft⟩ := settle_leaves (fun env henv => hwritten env (by simp [henv])) hsettle
    obtain rfl := key_eq_none hreg.authenticated hwithout
    rcases authenticate_leaves hauth with ⟨-, rfl⟩ | ⟨k, hk, -⟩
    · obtain rfl : s' = reserved := hleft
      exact .refl _
    · cases hk
  · intro req cfg asked key called r verified rest verifier verdict nul hreg hr hasked
      hverified hnul
    obtain ⟨-, env, first, second, third, last, reserved, rfl, hauth, -, hsettle⟩ :=
      hreg.does h
    obtain ⟨-, hleft⟩ := settle_leaves (fun env henv => hwritten env (by simp [henv])) hsettle
    obtain rfl := key_eq_some hreg.authenticated hasked hverified hnul
    rcases authenticate_leaves hauth with ⟨hk, -⟩ | ⟨k, hk, hfree, rfl⟩
    · cases hk
    · cases hk
      have hkept : s' = if cfg.nullifiersPath = "" then s.reserve (keyOf req nul)
          else (s.reserve (keyOf req nul)).append cfg.nullifiersPath (keyOf req nul) := by
        rcases r with (msg | msg) | success
        · exact absurd rfl (hr msg)
        · exact hleft
        · exact hleft
      refine ⟨hfree, ?_, ?_⟩
      · rw [hkept, ← getD_reserve]
        split <;> rfl
      · rw [hkept]
        split <;> rfl
  · intro req cfg asked key called msg hreg envs' called' success registered hregister
    obtain ⟨hsame, hserver, hclients, howner⟩ := hreg.unsubmitted h hwritten
    obtain ⟨hcfg, env, first, second, third, last, reserved, rfl, hauth, -, -⟩ := hreg.does h
    obtain ⟨reserved', hauth', hclients', howner'⟩ :=
      authenticate_again hauth hclients howner hsame.consumed
    have hregister' := (does_consulting hregister (register_consulting hregister.after)).2
      reserved' hclients' howner'
    have hsettle : ∃ envs last t, Does execOp (settle cfg req key (.ok success)) reserved' envs
        last (.ret (settleResponse req (.ok success))) t := by
      rw [settle_eq]
      cases settleOp cfg key (.ok success) with
      | none => exact ⟨_, _, _, .done _ _⟩
      | some e => exact ⟨[quiet], _, _, .act (.done _ _)⟩
    obtain ⟨envs'', last', t, hsettle⟩ := hsettle
    exact ⟨_, last', t, handle_does hreg.admitted (hserver.trans hcfg) hauth'
      (hregister'.bind hsettle)⟩

end Request

open Platform in
/-- A voucher that is granted. -/
theorem handle_allOrNothing_voucher :
    ∃ envs trace response s', Does execOp (handleRequest (requestOf "voucher").encode)
        (servingShared (fun _ => none) "c" "w" "nullifiers" "voucher" voucherModule) envs trace
        (.ret response) s' ∧ Granted (requestOf "voucher").encode trace ∧
      AllOrNothing (requestOf "voucher").encode trace
        (servingShared (fun _ => none) "c" "w" "nullifiers" "voucher" voucherModule) s' := by
  have hready : Ready "voucher" voucherModule
      (servedCfg "c" "w" "nullifiers" "voucher" voucherModule)
      (servingShared (fun _ => none) "c" "w" "nullifiers" "voucher" voucherModule) :=
    ready_servingShared
  have haccepting : Accepting _ _ _ _ (replyWith (acceptance "a1")) "a1" :=
    hready.accepting (by decide +kernel) (by decide +kernel)
  obtain ⟨trace, hall, -, hgranted, -⟩ := handle_granted haccepting
    (not_isConsumed_fresh _ _) hready.rln (by decide) (moduleResult_registration _ 5)
    (moduleResult_confirmation _ 7) (confirmedLeaf_confirmation 7)
  obtain ⟨first, second, head, tail, response, mid, henvs, rfl, hhandle, hlast⟩ :=
    does_bind hall
  obtain ⟨rfl, rfl, -, rfl⟩ := does_ret hlast
  rw [List.append_nil] at henvs hgranted
  refine ⟨first, head, response, _, hhandle, hgranted, handle_allOrNothing hhandle ?_⟩
  rw [← henvs]
  simp [callEnvs]

end RlnGifter
