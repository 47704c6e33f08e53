/-
What the trace of a request says about it: the verdict it was judged by, the key
that verdict carries, and what `register` returned.
-/
import RlnGifter.Gifter

namespace RlnGifter

open Program

theorem Admitted.unique {buf : List UInt8} {req req' : RlnGifterRequest}
    (h : Admitted buf req) (h' : Admitted buf req') : req = req' := by
  have heq := h.decoded.symm.trans h'.decoded
  cases heq
  rfl

/-- The trace of a request shows the configuration it read. -/
theorem Admitted.same {buf : List UInt8} {req req' : RlnGifterRequest} {cfg cfg' : ServerCfg}
    {past past' : Trace} (h : Admitted buf req) (h' : Admitted buf req')
    (htrace : (⟨.lockServer, some cfg⟩ :: past : Trace) = ⟨.lockServer, some cfg'⟩ :: past') :
    req = req' ∧ cfg = cfg' ∧ past = past' := by
  obtain ⟨hhead, htail⟩ := List.cons.inj htrace
  cases hhead
  exact ⟨h.unique h', rfl, htail⟩

/-- A call of `register_member`. -/
def IsRegisterMember : Op → Prop
  | .invokeAsync target method _ _ => target = rlnModule ∧ method = "register_member"
  | _ => False

/-- Merging a file and installing a configuration. -/
def Installing : Op → Prop
  | .merge _ | .storeServer _ => True
  | _ => False

/-- What a request may do: read the statics, call other modules, read the clock
and go to the store. -/
def Requesting : Op → Prop
  | .lockServer | .findClient _ | .readOwner | .invokeAsync _ _ _ _ | .pastDeadline
  | .reserve _ | .release _ | .append _ _ => True
  | _ => False

theorem Requesting.not_installing {e : Op} (h : Requesting e) : ¬ Installing e := by
  intro hinstalling
  cases e <;> first | exact h | exact hinstalling

theorem Calling.not_installing {e : Op} (h : Calling e) : ¬ Installing e := by
  intro hinstalling
  cases e <;> first | exact h | exact hinstalling

theorem Lookup.requesting {e : Op} (h : Lookup e) : Requesting e := by
  cases e <;> trivial

theorem Lookup.not_register {e : Op} (h : Lookup e) : ¬ IsRegisterMember e := by
  intro hcall
  cases e <;> first | exact h | exact hcall

section Verdict

variable [SerdeJson] {cfg : ServerCfg} {req : RlnGifterRequest} {authType : String}
  {rate : UInt64}

theorem Asking.requesting {e : Op} (h : Asking cfg req authType rate e) :
    Requesting e := by
  rcases h with h | ⟨verifier, verifierConfig, verifyJson, -, -, rfl⟩
  · exact h.requesting
  · trivial

theorem Polling.requesting {idc : List UInt8} {e : Op} (h : Polling cfg idc e) :
    Requesting e := by
  rcases h with h | rfl | rfl
  · exact h.requesting
  · trivial
  · trivial

theorem Asking.not_register {e : Op} (h : Asking cfg req authType rate e) :
    ¬ IsRegisterMember e := by
  rcases h with h | ⟨verifier, verifierConfig, verifyJson, -, -, rfl⟩
  · exact h.not_register
  · rintro ⟨-, hmethod⟩
    exact absurd hmethod (by decide)

variable [CaseTables]

/-- What authentication has done: look up, ask the verifier and reserve. -/
theorem authenticate_events {asked : Trace}
    {q : Prog (Except RlnGifterResponse (Option String))}
    (h : (authenticate cfg req authType rate).After asked q) :
    ∀ event ∈ asked, Asking cfg req authType rate event.1 ∨ ∃ key, event.1 = .reserve key := by
  have hreserve : ∀ {verified : Trace} {verifier : String} {verdict : Verdict}
      {key : String} {used : Bool},
      Verified cfg req authType rate verified verifier verdict →
      ∀ event ∈ verified ++ [⟨.reserve key, used⟩],
        Asking cfg req authType rate event.1 ∨ ∃ key, event.1 = .reserve key := by
    intro verified verifier verdict key used hverified event hevent
    rcases List.mem_append.mp hevent with hevent | hevent
    · exact Or.inl (hverified.asking event hevent)
    · rw [List.mem_singleton.mp hevent]
      exact Or.inr ⟨key, rfl⟩
  cases authenticate_after h with
  | opened hopen =>
      intro event hevent
      cases hevent
  | asking _ hasked => exact fun event hevent => Or.inl (hasked event hevent)
  | refused _ hasked => exact fun event hevent => Or.inl (hasked event hevent)
  | accepted _ _ _ hverified =>
      exact fun event hevent => Or.inl (hverified.asking event hevent)
  | reserving _ _ _ hverified =>
      exact fun event hevent => Or.inl (hverified.asking event hevent)
  | used _ _ _ hverified => exact hreserve hverified
  | reserved _ _ _ hverified => exact hreserve hverified

/-- Authentication does not register. -/
theorem authenticate_not_register {asked : Trace}
    {q : Prog (Except RlnGifterResponse (Option String))}
    (h : (authenticate cfg req authType rate).After asked q) :
    ∀ event ∈ asked, ¬ IsRegisterMember event.1 := by
  intro event hevent
  rcases authenticate_events h event hevent with hasking | ⟨key, heq⟩
  · exact hasking.not_register
  · rw [heq]
    exact id

/-- No more does reading the configuration before it. -/
theorem locked_not_register {asked : Trace}
    {q : Prog (Except RlnGifterResponse (Option String))}
    (h : (authenticate cfg req authType rate).After asked q) :
    ∀ event ∈ (⟨.lockServer, some cfg⟩ :: asked : Trace), ¬ IsRegisterMember event.1 := by
  intro event hevent
  rcases List.mem_cons.mp hevent with rfl | hevent
  · exact id
  · exact authenticate_not_register h event hevent

omit [CaseTables] in
theorem Verified.lookup {asked : Trace} {verifier : String} {verdict : Verdict}
    (h : Verified cfg req authType rate asked verifier verdict) :
    ∃ entry, lookupField authType cfg.authVerifiers = some entry := by
  obtain ⟨verifierConfig, -, -, -, -, hlookup, -⟩ := h
  exact ⟨_, hlookup⟩

/-- The key that authentication reserves, or is about to, is that of the nullifier
its accepted verdict names. -/
theorem authenticate_key {asked : Trace} {key : String} (used : Bool)
    {q : Prog (Except RlnGifterResponse (Option String))}
    (h : (authenticate cfg req authType rate).After asked q)
    (hkey : ⟨.reserve key, used⟩ ∈ asked ∨ q.pending = some (.reserve key)) :
    ∃ verified rest verifier verdict nul, asked = verified ++ rest ∧
      Verified cfg req authType rate verified verifier verdict ∧
      verdict.nullifier = some nul ∧ wellFormed (normalize nul) = true ∧
      replayKey authType (normalize nul) = key := by
  have hquiet : ∀ {trace : Trace},
      (∀ event ∈ trace, Asking cfg req authType rate event.1) →
      ⟨.reserve key, used⟩ ∉ trace := by
    intro trace htrace hmem
    have hstore := (htrace _ hmem).quiet
    cases hstore
  cases authenticate_after h with
  | opened hopen =>
      rcases hkey with hmem | heq
      · cases hmem
      · cases heq
  | asking _ hasked e next he =>
      rcases hkey with hmem | heq
      · exact absurd hmem (hquiet hasked)
      · cases heq
        have hstore := he.quiet
        cases hstore
  | refused _ hasked =>
      rcases hkey with hmem | heq
      · exact absurd hmem (hquiet hasked)
      · cases heq
  | accepted _ _ _ hverified =>
      rcases hkey with hmem | heq
      · exact absurd hmem (hquiet hverified.asking)
      · cases heq
  | reserving _ verifier verdict hverified nul hnul hformed =>
      rcases hkey with hmem | heq
      · exact absurd hmem (hquiet hverified.asking)
      · cases heq
        exact ⟨asked, [], verifier, verdict, nul, (List.append_nil _).symm, hverified,
          hnul, hformed, rfl⟩
  | used verified verifier verdict hverified nul hnul hformed =>
      rcases hkey with hmem | heq
      · rw [List.mem_append, or_iff_right (hquiet hverified.asking),
          List.mem_singleton] at hmem
        cases hmem
        exact ⟨verified, _, verifier, verdict, nul, rfl, hverified, hnul, hformed, rfl⟩
      · cases heq
  | reserved verified verifier verdict hverified nul hnul hformed =>
      rcases hkey with hmem | heq
      · rw [List.mem_append, or_iff_right (hquiet hverified.asking),
          List.mem_singleton] at hmem
        cases hmem
        exact ⟨verified, _, verifier, verdict, nul, rfl, hverified, hnul, hformed, rfl⟩
      · cases heq

end Verdict

variable [SerdeJson] [CaseTables]

/-- The accepted verdict of this request carries `key`: it names a well-formed
nullifier whose key that is. -/
def Carries (buf : List UInt8) (trace : Trace) (key : String) : Prop :=
  ∃ (req : RlnGifterRequest) (cfg : ServerCfg) (asked rest : Trace)
    (verifier : String) (verdict : Verdict) (nul : String),
    Admitted buf req ∧ trace = ⟨.lockServer, some cfg⟩ :: (asked ++ rest) ∧
    Verified cfg req (authTypeOf req) (effectiveRate cfg req) asked verifier verdict ∧
    verdict.nullifier = some nul ∧ wellFormed (normalize nul) = true ∧
    replayKey (authTypeOf req) (normalize nul) = key

/-- The accepted verdict of this request, of type `authType`, names `nul`. -/
def Presents (buf : List UInt8) (trace : Trace) (authType nul : String) : Prop :=
  ∃ (req : RlnGifterRequest) (cfg : ServerCfg) (asked rest : Trace)
    (verifier : String) (verdict : Verdict),
    Admitted buf req ∧ trace = ⟨.lockServer, some cfg⟩ :: (asked ++ rest) ∧
    Verified cfg req (authTypeOf req) (effectiveRate cfg req) asked verifier verdict ∧
    verdict.nullifier = some nul ∧ authTypeOf req = authType

theorem Presents.carries {buf : List UInt8} {trace : Trace} {authType nul : String}
    (h : Presents buf trace authType nul) (hformed : wellFormed (normalize nul) = true) :
    Carries buf trace (replayKey authType (normalize nul)) := by
  obtain ⟨req, cfg, asked, rest, verifier, verdict, hreq, htrace, hverified, hnul, rfl⟩ := h
  exact ⟨req, cfg, asked, rest, verifier, verdict, nul, hreq, htrace, hverified, hnul,
    hformed, rfl⟩

theorem Carries.presents {buf : List UInt8} {trace : Trace} {key : String}
    (h : Carries buf trace key) : ∃ authType nul, Presents buf trace authType nul ∧
      replayKey authType (normalize nul) = key := by
  obtain ⟨req, cfg, asked, rest, verifier, verdict, nul, hreq, htrace, hverified, hnul, -,
    rfl⟩ := h
  exact ⟨_, nul, ⟨req, cfg, asked, rest, verifier, verdict, hreq, htrace, hverified, hnul,
    rfl⟩, rfl⟩

omit [CaseTables] in
theorem Presents.unique {buf : List UInt8} {trace : Trace}
    {authType authType' nul nul' : String} (h : Presents buf trace authType nul)
    (h' : Presents buf trace authType' nul') : authType = authType' ∧ nul = nul' := by
  obtain ⟨req, cfg, asked, rest, verifier, verdict, hreq, rfl, hverified, hnul, rfl⟩ := h
  obtain ⟨req', cfg', asked', rest', verifier', verdict', hreq', htrace, hverified', hnul',
    rfl⟩ := h'
  obtain ⟨rfl, rfl, htail⟩ := hreq.same hreq' htrace
  obtain ⟨-, -, rfl, -⟩ := hverified.unique hverified' htail
  rw [hnul] at hnul'
  cases hnul'
  exact ⟨rfl, rfl⟩

/-- The request got past authentication. -/
def Authorised (buf : List UInt8) (trace : Trace) : Prop :=
  ∃ (req : RlnGifterRequest) (cfg : ServerCfg) (asked rest : Trace)
    (key : Option String),
    Admitted buf req ∧ trace = ⟨.lockServer, some cfg⟩ :: (asked ++ rest) ∧
    (authenticateRequest cfg req).After asked (.ret (.ok key))

/-- The request got past authentication, and its `register` returned `r`. -/
def RegisterReturned (buf : List UInt8) (trace : Trace)
    (r : Except RegisterError MembershipAllocationSuccess) : Prop :=
  ∃ (req : RlnGifterRequest) (cfg : ServerCfg) (asked called last : Trace)
    (key : Option String),
    Admitted buf req ∧
    trace = ⟨.lockServer, some cfg⟩ :: (asked ++ (called ++ last)) ∧
    (authenticateRequest cfg req).After asked (.ret (.ok key)) ∧
    (registerRequest cfg req).After called (.ret r)

/-- `register` returned `Ok` or `Unconfirmed`. -/
def Granted (buf : List UInt8) (trace : Trace) : Prop :=
  ∃ r, RegisterReturned buf trace r ∧ ∀ msg, r ≠ .error (.notSubmitted msg)

/-- `register_member` answered `Ok` in this trace. -/
def Accepted (trace : Trace) : Prop :=
  ∃ args timeoutMs outcome reply,
    ⟨.invokeAsync rlnModule "register_member" args timeoutMs, outcome⟩ ∈ trace ∧
    moduleResult "register_member" outcome.seen = .ok reply

/-- A request of which `register` returned is settling. -/
theorem RegisterReturned.settling {buf : List UInt8} {trace : Trace}
    {q : Prog RlnGifterResponse}
    {r : Except RegisterError MembershipAllocationSuccess}
    (h : RegisterReturned buf trace r) (hrun : HandleRun buf trace q) :
    ∃ (req : RlnGifterRequest) (cfg : ServerCfg) (asked called last : Trace)
      (key : Option String),
      Admitted buf req ∧
      trace = ⟨.lockServer, some cfg⟩ :: (asked ++ (called ++ last)) ∧
      (authenticateRequest cfg req).After asked (.ret (.ok key)) ∧
      (registerRequest cfg req).After called (.ret r) ∧
      (settle cfg req key r).After last q := by
  obtain ⟨req, cfg, asked, called, last, key, hreq, rfl, hauth, hregister⟩ := h
  generalize htrace : (⟨.lockServer, some cfg⟩ :: (asked ++ (called ++ last)) : Trace) =
    trace' at hrun
  cases hrun with
  | malformed => cases htrace
  | missized => cases htrace
  | starting => cases htrace
  | unconfigured => cases htrace
  | authenticating req' hreq' cfg' asked' e next hauth' =>
      obtain ⟨rfl, rfl, rfl⟩ := hreq.same hreq' htrace
      obtain ⟨-, heq⟩ := after_ret_append hauth hauth'
      cases heq
  | refused req' hreq' cfg' asked' response hauth' =>
      obtain ⟨rfl, rfl, rfl⟩ := hreq.same hreq' htrace
      obtain ⟨-, heq⟩ := after_ret_append hauth hauth'
      cases heq
  | registering req' hreq' cfg' asked' key' hauth' called' e next hregister' =>
      obtain ⟨rfl, rfl, htail⟩ := hreq.same hreq' htrace
      obtain ⟨-, -, rfl⟩ := after_ret_unique hauth hauth' htail
      obtain ⟨-, heq⟩ := after_ret_append hregister hregister'
      cases heq
  | settling req' hreq' cfg' asked' key' hauth' called' r' hregister' last' _ hsettle =>
      obtain ⟨rfl, rfl, htail⟩ := hreq.same hreq' htrace
      obtain ⟨rfl, hkey, htail'⟩ := after_ret_unique hauth hauth' htail
      cases hkey
      obtain ⟨rfl, rfl, rfl⟩ := after_ret_unique hregister hregister' htail'
      exact ⟨req, cfg, asked, called, last, key, hreq, htrace.symm, hauth, hregister,
        hsettle⟩

theorem RegisterReturned.authorised {buf : List UInt8} {trace : Trace}
    {r : Except RegisterError MembershipAllocationSuccess}
    (h : RegisterReturned buf trace r) : Authorised buf trace := by
  obtain ⟨req, cfg, asked, called, last, key, hreq, htrace, hauth, -⟩ := h
  exact ⟨req, cfg, asked, called ++ last, key, hreq, htrace, hauth⟩

theorem Granted.authorised {buf : List UInt8} {trace : Trace} (h : Granted buf trace) :
    Authorised buf trace := by
  obtain ⟨r, hreturned, -⟩ := h
  exact hreturned.authorised

/-- Authentication of a request with a nullifier goes on only if that is well formed, and
with its key reserved. -/
theorem Presents.authenticated {buf : List UInt8} {trace asked rest : Trace}
    {authType nul : String} {req : RlnGifterRequest} {cfg : ServerCfg} {k : Option String}
    (h : Presents buf trace authType nul) (hreq : Admitted buf req)
    (htrace : trace = ⟨.lockServer, some cfg⟩ :: (asked ++ rest))
    (hauth : (authenticateRequest cfg req).After asked (.ret (.ok k))) :
    wellFormed (normalize nul) = true ∧ k = some (replayKey authType (normalize nul)) ∧
      ⟨.reserve (replayKey authType (normalize nul)), false⟩ ∈ asked := by
  obtain ⟨req', cfg', asked', rest', verifier, verdict, hreq', rfl, hverified, hnul, rfl⟩ := h
  obtain ⟨rfl, rfl, htail⟩ := hreq.same hreq' htrace
  rcases authenticate_ok hauth with ⟨hopen, -⟩ | ⟨verifier', verdict', hverified',
    hnone, -⟩ | ⟨verified, verifier', verdict', nul', hverified', hnul', hformed, rfl, rfl⟩
  · obtain ⟨verifierConfig, -, -, -, -, hlookup, -⟩ := hverified
    rw [hopen] at hlookup
    cases hlookup
  · obtain ⟨-, -, rfl, -⟩ := hverified.unique hverified' htail
    rw [hnone] at hnul
    cases hnul
  · rw [List.append_assoc] at htail
    obtain ⟨-, -, rfl, -⟩ := hverified.unique hverified' htail
    rw [hnul] at hnul'
    cases hnul'
    exact ⟨hformed, rfl, List.mem_append_right _ (List.mem_singleton_self _)⟩

/-- Authentication of a request that carries a key goes on with that key
reserved. -/
theorem Carries.authenticated {buf : List UInt8} {trace asked rest : Trace}
    {key : String} {req : RlnGifterRequest} {cfg : ServerCfg} {k : Option String}
    (hcarries : Carries buf trace key) (hreq : Admitted buf req)
    (htrace : trace = ⟨.lockServer, some cfg⟩ :: (asked ++ rest))
    (hauth : (authenticateRequest cfg req).After asked (.ret (.ok k))) :
    k = some key ∧ ⟨.reserve key, false⟩ ∈ asked := by
  obtain ⟨authType, nul, hpresents, rfl⟩ := hcarries.presents
  exact (hpresents.authenticated hreq htrace hauth).2

/-- A nullifier that got past authentication is well formed. -/
theorem Presents.wellFormed {buf : List UInt8} {trace : Trace} {authType nul : String}
    (h : Presents buf trace authType nul) (hauthorised : Authorised buf trace) :
    wellFormed (normalize nul) = true := by
  obtain ⟨req, cfg, asked, rest, key, hreq, htrace, hauth⟩ := hauthorised
  exact (h.authenticated hreq htrace hauth).1

/-- A request that carries a key and got past authentication has reserved it. -/
theorem Carries.reserved {buf : List UInt8} {trace : Trace} {key : String}
    (hcarries : Carries buf trace key) (hauthorised : Authorised buf trace) :
    ⟨.reserve key, false⟩ ∈ trace := by
  obtain ⟨req, cfg, asked, rest, k, hreq, htrace, hauth⟩ := hauthorised
  have hasked := (hcarries.authenticated hreq htrace hauth).2
  rw [htrace]
  exact List.mem_cons_of_mem _ (List.mem_append_left _ hasked)

/-- A request ends without a call of `register_member`, or with what `register`
returned. -/
theorem HandleRun.finished {buf : List UInt8} {trace : Trace}
    {response : RlnGifterResponse} (h : HandleRun buf trace (.ret response)) :
    (∀ event ∈ trace, ¬ IsRegisterMember event.1) ∨
      ∃ r, RegisterReturned buf trace r := by
  cases h with
  | malformed => exact Or.inl (by simp)
  | missized => exact Or.inl (by simp)
  | unconfigured => exact Or.inl (by simp [IsRegisterMember])
  | refused req hreq cfg asked _ hauth => exact Or.inl (locked_not_register hauth)
  | settling req hreq cfg asked key hauth called r hregister last _ hsettle =>
      exact Or.inr ⟨r, req, cfg, asked, called, last, key, hreq, rfl, hauth, hregister⟩

/-- The trace of a request that has got as far as `register`, which runs from `asked`
on; what comes `last` settles the reservation. -/
structure Registering (buf : List UInt8) (trace : Trace) (req : RlnGifterRequest)
    (cfg : ServerCfg) (asked called last : Trace) : Prop where
  admitted : Admitted buf req
  trace : trace = ⟨.lockServer, some cfg⟩ :: (asked ++ (called ++ last))
  authorised : ∃ key, (authenticateRequest cfg req).After asked (.ret (.ok key))
  registering : ∃ q, (registerRequest cfg req).After called q
  settling : ∀ event ∈ last, ∃ key, event.1 = .release key ∨
    event.1 = .append cfg.nullifiersPath key

/-- A request has not got as far as `register`, or it has. -/
theorem HandleRun.registering_cases {buf : List UInt8} {trace : Trace}
    {q : Prog RlnGifterResponse} (h : HandleRun buf trace q) :
    (∀ event ∈ trace, ¬ IsRegisterMember event.1) ∨
      ∃ req cfg asked called last, Registering buf trace req cfg asked called last := by
  cases h with
  | malformed => exact Or.inl (by simp)
  | missized => exact Or.inl (by simp)
  | starting => exact Or.inl (by simp)
  | unconfigured => exact Or.inl (by simp [IsRegisterMember])
  | authenticating req hreq cfg asked e next hauth =>
      exact Or.inl (locked_not_register hauth)
  | refused req hreq cfg asked response hauth => exact Or.inl (locked_not_register hauth)
  | registering req hreq cfg asked key hauth called e next hregister =>
      exact Or.inr ⟨req, cfg, asked, called, [], hreq, by simp, ⟨key, hauth⟩,
        ⟨_, hregister⟩, by simp⟩
  | settling req hreq cfg asked key hauth called r hregister last _ hsettle =>
      refine Or.inr ⟨req, cfg, asked, called, last, hreq, rfl, ⟨key, hauth⟩,
        ⟨_, hregister⟩, ?_⟩
      intro event hevent
      rcases settle_after hsettle with ⟨rfl, -⟩ | ⟨e, answer, hop, rfl, -⟩
      · cases hevent
      · rw [List.mem_singleton.mp hevent]
        obtain ⟨k, -, ⟨rfl, -⟩ | ⟨rfl, -⟩⟩ := settleOp_cases hop
        · exact ⟨k, Or.inl rfl⟩
        · exact ⟨k, Or.inr rfl⟩

/-- A request that calls `register_member` got past authentication. -/
theorem HandleRun.authorised {buf : List UInt8} {trace : Trace}
    {q : Prog RlnGifterResponse} (h : HandleRun buf trace q) {event : Event Answer}
    (hevent : event ∈ trace) (hcall : IsRegisterMember event.1) :
    Authorised buf trace := by
  rcases h.registering_cases with hnone | ⟨req, cfg, asked, called, last, hrun⟩
  · exact absurd hcall (hnone event hevent)
  · obtain ⟨key, hauth⟩ := hrun.authorised
    exact ⟨req, cfg, asked, called ++ last, key, hrun.admitted, hrun.trace, hauth⟩

/-- The response of a request whose key is in the store. -/
def usedResponse (req : RlnGifterRequest) (key : String) : RlnGifterResponse :=
  failureResponse req.requestId false ("credential already used: " ++ key)

/-- A finished request that carries a key has reserved it, or found it used and
said so. -/
theorem Carries.finished {buf : List UInt8} {trace : Trace} {key : String}
    {response : RlnGifterResponse} (hcarries : Carries buf trace key)
    (hrun : HandleRun buf trace (.ret response)) :
    ⟨.reserve key, false⟩ ∈ trace ∨
      ⟨.reserve key, true⟩ ∈ trace ∧
        ∃ req, Admitted buf req ∧ response = usedResponse req key := by
  have hcarries' := hcarries
  obtain ⟨req, cfg, asked, rest, verifier, verdict, nul, hreq, htrace, hverified, hnul,
    hformed, rfl⟩ := hcarries'
  cases hrun with
  | malformed => cases htrace
  | missized => cases htrace
  | unconfigured => cases htrace
  | refused req' hreq' cfg' asked' _ hauth =>
      obtain ⟨rfl, rfl, htail⟩ := hreq.same hreq' htrace
      generalize hq : (Program.ret (.error response) :
        Prog (Except RlnGifterResponse (Option String))) = q at hauth
      cases authenticate_after hauth with
      | opened => cases hq
      | asking => cases hq
      | refused _ _ hunaccepted =>
          obtain ⟨nul', hnul', hformed'⟩ :=
            hunaccepted asked rest verifier verdict htail hverified
          rw [hnul] at hnul'
          cases hnul'
          rw [hformed] at hformed'
          cases hformed'
      | accepted => cases hq
      | reserving => cases hq
      | used verified verifier' verdict' hverified' nul' hnul' =>
          cases hq
          obtain ⟨-, -, rfl, -⟩ := hverified'.unique hverified htail
          rw [hnul] at hnul'
          cases hnul'
          exact Or.inr ⟨by simp, req, hreq, rfl⟩
      | reserved => cases hq
  | settling req' hreq' cfg' asked' k hauth called r hregister last _ hsettle =>
      exact Or.inl (hcarries.reserved ⟨req', cfg', asked', called ++ last, k, hreq', rfl,
        hauth⟩)

/-- The key a request reserves, or is about to, is the one it carries. -/
theorem HandleRun.carries {buf : List UInt8} {trace : Trace} {q : Prog RlnGifterResponse}
    (h : HandleRun buf trace q) {key : String} (used : Bool)
    (hkey : ⟨.reserve key, used⟩ ∈ trace ∨ q.pending = some (.reserve key)) :
    Carries buf trace key := by
  have hcalled : ∀ {req : RlnGifterRequest} {cfg : ServerCfg} {called : Trace}
      {p : Prog (Except RegisterError MembershipAllocationSuccess)},
      (registerRequest cfg req).After called p →
      ⟨.reserve key, used⟩ ∉ called ∧ p.pending ≠ some (.reserve key) := by
    intro req cfg called p hregister
    obtain ⟨hnone, hnext⟩ := register_quiet hregister
    constructor
    · rw [← mem_storeEvents rfl, hnone]
      exact List.not_mem_nil
    · intro hpending
      cases hnext _ hpending
  have hasked : ∀ {req : RlnGifterRequest} {cfg : ServerCfg} {asked more : Trace}
      {p : Prog (Except RlnGifterResponse (Option String))}, Admitted buf req →
      (authenticateRequest cfg req).After asked p →
      (⟨.reserve key, used⟩ ∈ asked ∨ p.pending = some (.reserve key)) →
      Carries buf (⟨.lockServer, some cfg⟩ :: (asked ++ more)) key := by
    intro req cfg asked more p hreq hauth hkey
    obtain ⟨verified, rest, verifier, verdict, nul, rfl, hverified, hnul, hformed, heq⟩ :=
      authenticate_key used hauth hkey
    exact ⟨req, cfg, verified, rest ++ more, verifier, verdict, nul, hreq,
      by rw [List.append_assoc], hverified, hnul, hformed, heq⟩
  cases h with
  | malformed => simp at hkey
  | missized => simp at hkey
  | starting => simp at hkey
  | unconfigured => simp at hkey
  | authenticating req hreq cfg asked e next hauth =>
      rw [← List.append_nil asked]
      exact hasked hreq hauth (by simpa using hkey)
  | refused req hreq cfg asked response hauth =>
      rw [← List.append_nil asked]
      exact hasked hreq hauth (Or.inl (by simpa using hkey))
  | registering req hreq cfg asked k hauth called e next hregister =>
      obtain ⟨hnot, hnext⟩ := hcalled hregister
      refine hasked hreq hauth (Or.inl ?_)
      rcases hkey with hmem | hpending
      · simpa [hnot] using hmem
      · exact absurd hpending hnext
  | settling req hreq cfg asked k hauth called r hregister last _ hsettle =>
      have hlast : ⟨.reserve key, used⟩ ∉ last ∧ q.pending ≠ some (.reserve key) := by
        rcases settle_after hsettle with ⟨rfl, ⟨-, rfl⟩ | ⟨e, next, hop, rfl⟩⟩ |
          ⟨e, answer, hop, rfl, rfl⟩
        · simp
        · obtain ⟨k', -, ⟨rfl, -⟩ | ⟨rfl, -⟩⟩ := settleOp_cases hop <;> simp
        · obtain ⟨k', -, ⟨rfl, -⟩ | ⟨rfl, -⟩⟩ := settleOp_cases hop <;> simp
      refine hasked hreq hauth (Or.inl ?_)
      rcases hkey with hmem | hpending
      · simpa [(hcalled hregister).1, hlast.1] using hmem
      · exact absurd hpending hlast.2

/-- What a request is about to do. -/
theorem HandleRun.requesting {buf : List UInt8} {trace : Trace}
    {q : Prog RlnGifterResponse} (h : HandleRun buf trace q) {e : Op}
    (he : q.pending = some e) : Requesting e := by
  cases h with
  | malformed => cases he
  | missized => cases he
  | starting =>
      cases he
      trivial
  | unconfigured => cases he
  | authenticating req hreq cfg asked e' next hauth =>
      cases he
      cases authenticate_after hauth with
      | asking _ _ _ _ hasking => exact hasking.requesting
      | reserving => trivial
  | refused => cases he
  | registering req hreq cfg asked k hauth called e' next hregister =>
      cases he
      rcases (only_after register_only hregister).2.1 with hpolling | rfl
      · exact hpolling.requesting
      · trivial
  | settling req hreq cfg asked k hauth called r hregister last _ hsettle =>
      rcases settle_after hsettle with ⟨-, ⟨-, rfl⟩ | ⟨e', next, hop, rfl⟩⟩ |
        ⟨e', answer, hop, -, rfl⟩
      · cases he
      · cases he
        obtain ⟨k', -, ⟨rfl, -⟩ | ⟨rfl, -⟩⟩ := settleOp_cases hop
        · trivial
        · trivial
      · cases he

/-- What a request did to the store after its reservation, it did in settling. -/
theorem HandleRun.settled {buf : List UInt8} {trace : Trace}
    {q : Prog RlnGifterResponse} (h : HandleRun buf trace q) {event : Event Answer}
    (hmem : event ∈ trace) (hstore : isStoreOp event.1 = true)
    (hreserve : ∀ key, event.1 ≠ .reserve key) :
    ∃ (req : RlnGifterRequest) (cfg : ServerCfg) (asked called : Trace)
      (key : Option String) (r : Except RegisterError MembershipAllocationSuccess),
      Admitted buf req ∧
      trace = ⟨.lockServer, some cfg⟩ :: (asked ++ (called ++ [event])) ∧
      (authenticateRequest cfg req).After asked (.ret (.ok key)) ∧
      (registerRequest cfg req).After called (.ret r) ∧
      settleOp cfg key r = some event.1 := by
  have hlock : ∀ server, event ≠ ⟨.lockServer, server⟩ := by
    rintro server rfl
    cases hstore
  have hasked : ∀ {req : RlnGifterRequest} {cfg : ServerCfg} {asked : Trace}
      {p : Prog (Except RlnGifterResponse (Option String))},
      (authenticateRequest cfg req).After asked p →
      event ∉ (⟨.lockServer, some cfg⟩ :: asked : Trace) := by
    intro req cfg asked p hauth hmem
    rw [List.mem_cons, or_iff_right (hlock _), ← mem_storeEvents hstore] at hmem
    rcases authenticate_store (authenticate_after hauth) with ⟨heq, -⟩ |
      ⟨k, response, heq, -⟩ | ⟨k, heq, -⟩
    · rw [heq] at hmem
      cases hmem
    · rw [heq, List.mem_singleton] at hmem
      exact hreserve k (hmem ▸ rfl)
    · rw [heq, List.mem_singleton] at hmem
      exact hreserve k (hmem ▸ rfl)
  have hcalled : ∀ {req : RlnGifterRequest} {cfg : ServerCfg} {called : Trace}
      {p : Prog (Except RegisterError MembershipAllocationSuccess)},
      (registerRequest cfg req).After called p → event ∉ called := by
    intro req cfg called p hregister hmem
    rw [← mem_storeEvents hstore, (register_quiet hregister).1] at hmem
    cases hmem
  cases h with
  | malformed => cases hmem
  | missized => cases hmem
  | starting => cases hmem
  | unconfigured => exact absurd (List.mem_singleton.mp hmem) (hlock none)
  | authenticating req hreq cfg asked e next hauth => exact absurd hmem (hasked hauth)
  | refused req hreq cfg asked response hauth => exact absurd hmem (hasked hauth)
  | registering req hreq cfg asked k hauth called e next hregister =>
      rw [← List.cons_append, List.mem_append] at hmem
      exact absurd hmem (not_or.mpr ⟨hasked hauth, hcalled hregister⟩)
  | settling req hreq cfg asked k hauth called r hregister last q hsettle =>
      rw [← List.cons_append, List.mem_append, List.mem_append,
        or_iff_right (hasked hauth), or_iff_right (hcalled hregister)] at hmem
      rcases settle_after hsettle with ⟨rfl, -⟩ | ⟨e, answer, hop, rfl, -⟩
      · cases hmem
      · obtain rfl := List.mem_singleton.mp hmem
        exact ⟨req, cfg, asked, called, k, r, hreq, rfl, hauth, hregister, hop⟩

/-- A request that rolled a key back had reserved it, and its `register` returned
`NotSubmitted`. -/
theorem HandleRun.released {buf : List UInt8} {trace : Trace}
    {q : Prog RlnGifterResponse} (h : HandleRun buf trace q) {key : String}
    (hmem : ⟨.release key, ()⟩ ∈ trace) :
    ∃ (req : RlnGifterRequest) (cfg : ServerCfg) (asked called : Trace)
      (msg : String), Admitted buf req ∧
      trace = ⟨.lockServer, some cfg⟩ :: (asked ++ (called ++ [⟨.release key, ()⟩])) ∧
      (authenticateRequest cfg req).After asked (.ret (.ok (some key))) ∧
      (registerRequest cfg req).After called (.ret (.error (.notSubmitted msg))) := by
  obtain ⟨req, cfg, asked, called, k, r, hreq, htrace, hauth, hregister, hop⟩ :=
    h.settled hmem rfl (by simp)
  obtain ⟨k', rfl, ⟨hrelease, msg, rfl⟩ | ⟨happend, -⟩⟩ := settleOp_cases hop
  · cases hrelease
    exact ⟨req, cfg, asked, called, msg, hreq, htrace, hauth, hregister⟩
  · cases happend

/-- A request appends to the file its configuration names, the key it reserved. -/
theorem HandleRun.appended {buf : List UInt8} {trace : Trace}
    {q : Prog RlnGifterResponse} (h : HandleRun buf trace q) {path key : String}
    {written : Bool} (hmem : ⟨.append path key, written⟩ ∈ trace) :
    ∃ (req : RlnGifterRequest) (cfg : ServerCfg) (asked called : Trace),
      Admitted buf req ∧
      trace = ⟨.lockServer, some cfg⟩ ::
        (asked ++ (called ++ [⟨.append path key, written⟩])) ∧
      (authenticateRequest cfg req).After asked (.ret (.ok (some key))) ∧
      path = cfg.nullifiersPath := by
  obtain ⟨req, cfg, asked, called, k, r, hreq, htrace, hauth, -, hop⟩ :=
    h.settled hmem rfl (by simp)
  obtain ⟨k', rfl, ⟨hrelease, -⟩ | ⟨happend, -⟩⟩ := settleOp_cases hop
  · cases hrelease
  · cases happend
    exact ⟨req, cfg, asked, called, hreq, htrace, hauth, rfl⟩

/-- A thread that is about to merge or install runs `serve`. -/
theorem serve_of_installing {P : GifterPool} (hP : gifter.WellTraced P) {id : Nat}
    {th : GifterThread} (hth : P.threads id = some th) {e : Op}
    (he : th.prog.pending = some e) (hinstalling : Installing e) :
    ∃ argsJson, th.task = .serve argsJson ∧
      ServeRun argsJson th.trace th.prog.pending := by
  have hafter := (hP id th hth).1
  cases htask : th.task with
  | contextReady =>
      rw [htask] at hafter
      have hq := (only_after contextReady_only hafter).2
      obtain ⟨next, hprog⟩ := pending_eq_some.mp he
      rw [hprog] at hq
      rcases hq.1 with rfl | hcalling
      · exact hinstalling.elim
      · exact absurd hinstalling hcalling.not_installing
  | serve argsJson =>
      rw [htask] at hafter
      exact ⟨argsJson, rfl, serve_body_after hafter⟩
  | handle buf =>
      rw [htask] at hafter
      obtain ⟨q, hrun, hpending, -⟩ := handle_body_after hafter
      exact absurd hinstalling (hrun.requesting (hpending.trans he)).not_installing

end RlnGifter
