/-
What the two reply conventions make of the text that another module replied with.  A
reply of a cdylib module that carries nothing at all is taken for the value null; a
reply of a universal module that is a string of its own is taken for a text.
-/
import RlnGifter.Platform
import RlnGifter.ServerRuns

namespace RlnGifter

open Program

/-- What is done to call a module before the call itself. -/
def Preparing : Op → Prop
  | .findClient _ | .createClient _ | .readOwner => True
  | _ => False

/-- The event is a successful call, and this is the text of its reply. -/
def Replied : Event Answer → Option String → Prop
  | ⟨.invoke _ _ _ _, outcome⟩, json => outcome = .ok json
  | ⟨.invokeAsync _ _ _ _, outcome⟩, json => outcome.seen = .reply true json
  | _, _ => False

theorem Preparing.not_replied {event : Event Answer} {json : Option String}
    (h : Preparing event.1) : ¬ Replied event json := by
  obtain ⟨e, answer⟩ := event
  cases e <;> simp_all [Preparing, Replied]

theorem onOwnerThread_preparing (who : Caller) : (onOwnerThread who).Only Preparing :=
  ⟨trivial, fun _ => trivial⟩

theorem createClient_preparing (target : String) : (createClient target).Only Preparing := by
  rw [createClient]
  split
  · trivial
  · exact only_perform trivial

theorem clientPtr_preparing (who : Caller) (target : String) :
    (clientPtr who target).Only Preparing := by
  have hfind : (perform (.findClient target)).Only Preparing := only_perform trivial
  rw [clientPtr]
  refine ⟨trivial, fun found => ?_⟩
  cases found with
  | true => exact hfind
  | false =>
      apply only_bind (onOwnerThread_preparing who)
      intro owner
      cases owner with
      | true =>
          apply only_bind (createClient_preparing target)
          intro created
          exact hfind
      | false => exact hfind

/-- What prepares a call brings no reply. -/
theorem replied_later {α β : Type} {p : Prog α} {f : α → Prog β} {r : β} {trace : Trace}
    {event : Event Answer} {json : Option String}
    (hp : p.Only Preparing) (h : (p >>= f).After trace (.ret r)) (hmem : event ∈ trace)
    (hreply : Replied event json) :
    ∃ value rest, event ∈ rest ∧ (f value).After rest (.ret r) := by
  obtain ⟨first, rest, value, rfl, hfirst, hrest⟩ := bind_after_ret h
  have honly := (only_after hp hfirst).1
  refine ⟨value, rest, ?_, hrest⟩
  rcases List.mem_append.mp hmem with hevent | hevent
  · exact absurd hreply (honly event hevent).not_replied
  · exact hevent

section Replies

variable [SerdeJson] {who : Caller} {target method : String} {args : Value} {timeoutMs : Int}
  {trace : Trace} {json : Option String} {event : Event Answer}

/-- On either thread the reply of a successful call is read by `parse_ok`. -/
theorem callJson_replied {r : Except String Value}
    (h : (callJson who target method args timeoutMs).After trace (.ret r))
    (hmem : event ∈ trace) (hreply : Replied event json) :
    r = .ok (parseOk (json.getD "")) := by
  rw [callJson] at h
  obtain ⟨ptr, rest, hrest, h⟩ := replied_later (clientPtr_preparing who target) h hmem hreply
  have hnone : ∀ {msg : String}, ¬ (Program.ret (.error msg) : Prog (Except String Value)).After
      rest (.ret r) := by
    intro msg hret
    obtain ⟨rfl, -⟩ := ret_after.mp hret
    cases hrest
  cases ptr with
  | false => exact absurd h hnone
  | true =>
      simp only [↓reduceIte] at h
      split at h
      · exact absurd h hnone
      · obtain ⟨owner, rest', hrest', h⟩ :=
          replied_later (onOwnerThread_preparing who) h hrest hreply
        cases owner with
        | true =>
            simp only [↓reduceIte, perform_bind, pure_eq_ret] at h
            obtain ⟨outcome, rfl, rfl⟩ := op_ret_after_ret h
            obtain rfl := List.mem_singleton.mp hrest'
            rw [show outcome = .ok json from hreply]
            rfl
        | false =>
            simp only [Bool.false_eq_true, ↓reduceIte, perform_bind, pure_eq_ret] at h
            obtain ⟨outcome, rfl, rfl⟩ := op_ret_after_ret h
            obtain rfl := List.mem_singleton.mp hrest'
            rw [show outcome.seen = .reply true json from hreply]
            rfl

theorem callJson_then_replied {f : Except String Value → Except String Value}
    {r : Except String Value}
    (h : (callJson who target method args timeoutMs >>= fun v => .ret (f v)).After trace (.ret r))
    (hmem : event ∈ trace) (hreply : Replied event json) :
    r = f (.ok (parseOk (json.getD ""))) := by
  obtain ⟨first, second, v, rfl, hcall, h⟩ := bind_after_ret h
  obtain ⟨rfl, heq⟩ := ret_after.mp h
  rw [List.append_nil] at hmem
  rw [Program.ret.inj heq, callJson_replied hcall hmem hreply]

/-- What `call_module_json` makes of the text of a reply. -/
def moduleReply (method raw : String) : Except String Value := unwrapModule method (parseOk raw)

/-- What `call_libp2p` makes of the text of a reply. -/
def libp2pReply (method raw : String) : Except String Value := unwrapLibp2p method (parseOk raw)

theorem callModuleJson_replied {r : Except String Value}
    (h : (callModuleJson who target method args timeoutMs).After trace (.ret r))
    (hmem : event ∈ trace) (hreply : Replied event json) :
    r = moduleReply method (json.getD "") :=
  callJson_then_replied h hmem hreply

theorem callLibp2p_replied {r : Except String Value}
    (h : (callLibp2p who method args timeoutMs).After trace (.ret r))
    (hmem : event ∈ trace) (hreply : Replied event json) :
    r = libp2pReply method (json.getD "") :=
  callJson_then_replied h hmem hreply

end Replies

section Values

variable {method s : String} {v env : Value}

theorem eq_string_of_view (h : v.view = .string s) : v = .string s := by
  obtain ⟨j, hj⟩ := v
  cases j with
  | string s' =>
      have hs : s' = s := Value.View.string.inj h
      subst hs
      rfl
  | _ => cases h

theorem ne_string_of_get {key : String} {item : Value} (h : env.get key = some item) (s : String) :
    env ≠ .string s := by
  rintro rfl
  cases h

theorem openEnvelope_success (hsuccess : env.get "success" = some (.bool true))
    (hvalue : env.get "value" = some v) : openEnvelope method env = .ok v := by
  simp only [openEnvelope, hsuccess, hvalue, Value.asBool_bool, Option.getD_some, ↓reduceIte]

theorem openEnvelope_error {e : String} (hsuccess : env.get "success" = some (.bool false))
    (herror : env.get "error" = some (.string e)) :
    openEnvelope method env =
      .error (method ++ ": " ++ if e = "" then "libp2p call failed" else e) := by
  by_cases he : e = ""
  · simp [openEnvelope, hsuccess, herror, he, Option.filter]
  · simp [openEnvelope, hsuccess, herror, he, Option.filter]

theorem openEnvelope_bare (h : v.get "success" = none) : openEnvelope method v = .ok v := by
  rw [openEnvelope, h]

/-- What opening gives is the value itself or the one in it. -/
theorem openEnvelope_string (h : openEnvelope method env = .ok (.string s)) :
    env = .string s ∨ ∃ key, env.get key = some (.string s) := by
  rw [openEnvelope] at h
  split at h
  · split at h
    · cases hvalue : env.get "value" with
      | none =>
          rw [hvalue] at h
          cases h
      | some v =>
          rw [hvalue, Option.getD_some, Except.ok.injEq] at h
          exact Or.inr ⟨"value", h ▸ hvalue⟩
    · cases h
  · exact Or.inl (Except.ok.inj h)

end Values

section Texts

variable [SerdeJson]

/-- The text is the JSON of the value; no JSON is empty. -/
def IsJson (text : String) (v : Value) : Prop := text ≠ "" ∧ SerdeJson.fromStr text = .ok v

variable {method raw s : String} {v w : Value}

theorem IsJson.parseOk (h : IsJson raw v) : parseOk raw = v := by
  rw [RlnGifter.parseOk, if_neg h.1, h.2]

/-- A text that is no JSON is kept as a string. -/
theorem parseOk_of_not_json (hraw : raw ≠ "") (h : ∀ v, ¬ IsJson raw v) :
    parseOk raw = .string raw := by
  rw [parseOk, if_neg hraw]
  cases hread : SerdeJson.fromStr raw with
  | ok v => exact absurd ⟨hraw, hread⟩ (h v)
  | error e => rfl

theorem unwrapModule_empty :
    unwrapModule method (.string "") = .error (method ++ ": empty reply") := rfl

theorem unwrapModule_string (hs : s ≠ "") : unwrapModule method (.string s) =
    (SerdeJson.fromStr s).mapError (method ++ ": reply parse: " ++ ·) :=
  if_neg hs

theorem unwrapModule_json (h : IsJson s v) : unwrapModule method (.string s) = .ok v := by
  rw [unwrapModule_string h.1, h.2]
  rfl

theorem unwrapModule_not_json (method : String) (h : ∀ v, ¬ IsJson s v) :
    ∃ e, unwrapModule method (.string s) = .error e := by
  by_cases hs : s = ""
  · rw [hs]
    exact ⟨_, unwrapModule_empty⟩
  · rw [unwrapModule_string hs]
    cases hread : SerdeJson.fromStr s with
    | ok v => exact absurd ⟨hs, hread⟩ (h v)
    | error e => exact ⟨_, rfl⟩

theorem unwrapModule_other (h : ∀ s, v ≠ .string s) : unwrapModule method v = .ok v := by
  rw [unwrapModule]
  split
  · rename_i s hview
    exact absurd (eq_string_of_view hview) (h s)
  · rfl

/-- The module returned a value: the text is the JSON of one that is no string, or of a
string that holds the JSON of one. -/
def Returned (raw : String) : Prop :=
  ∃ v, IsJson raw v ∧ ∀ s, v = .string s → ∃ w, IsJson s w

/-- A reply is read as the value returned, and nothing else is read as one. -/
structure ReadsReply (method raw : String) : Prop where
  object : ∀ v, IsJson raw v → (∃ fields, v.view = .object fields) →
    moduleReply method raw = .ok v
  string : ∀ s v, IsJson raw (.string s) → IsJson s v → moduleReply method raw = .ok v
  empty : raw = "" ∨ IsJson raw (.string "") → ∃ e, moduleReply method raw = .error e
  noJson : (∀ v, ¬ IsJson raw v) → ∃ e, moduleReply method raw = .error e
  stringNoJson : ∀ s, IsJson raw (.string s) → (∀ v, ¬ IsJson s v) →
    ∃ e, moduleReply method raw = .error e

/-- A reply is read right just when there is any text of it. -/
theorem readsReply_iff : ReadsReply method raw ↔ raw ≠ "" := by
  constructor
  · rintro h rfl
    obtain ⟨e, he⟩ := h.empty (Or.inl rfl)
    cases he
  · intro hraw
    constructor
    · rintro v hv ⟨fields, hfields⟩
      rw [moduleReply, hv.parseOk]
      apply unwrapModule_other
      rintro s rfl
      cases hfields
    · intro s v hs hv
      rw [moduleReply, hs.parseOk, unwrapModule_json hv]
    · intro hempty
      rw [moduleReply, (hempty.resolve_left hraw).parseOk]
      exact ⟨_, unwrapModule_empty⟩
    · intro hnone
      rw [moduleReply, parseOk_of_not_json hraw hnone]
      exact unwrapModule_not_json _ hnone
    · intro s hs hnone
      rw [moduleReply, hs.parseOk]
      exact unwrapModule_not_json _ hnone

/-- What is returned for a text was returned by the module, if there is any text. -/
theorem returned_of_ok (h : moduleReply method raw = .ok w) : Returned raw ↔ raw ≠ "" := by
  constructor
  · rintro ⟨v, hv, -⟩
    exact hv.1
  · intro hraw
    rw [moduleReply] at h
    by_cases hjson : ∃ v, IsJson raw v
    · obtain ⟨v, hv⟩ := hjson
      refine ⟨v, hv, ?_⟩
      rintro s rfl
      by_contra hnone
      have hstring : ∀ w, ¬ IsJson s w := fun w hw => hnone ⟨w, hw⟩
      obtain ⟨e, he⟩ := unwrapModule_not_json method hstring
      rw [hv.parseOk, he] at h
      cases h
    · have hnone : ∀ v, ¬ IsJson raw v := fun v hv => hjson ⟨v, hv⟩
      obtain ⟨e, he⟩ := unwrapModule_not_json method hnone
      rw [parseOk_of_not_json hraw hnone, he] at h
      cases h

end Texts

section Envelopes

variable [SerdeJson] {method raw s : String} {v env : Value}

/-- The text is the JSON of the value, or of a string that holds it. -/
def CarriesJson (raw : String) (v : Value) : Prop :=
  IsJson raw v ∨ ∃ s, IsJson raw (.string s) ∧ IsJson s v

theorem unwrapLibp2p_other (h : ∀ s, v ≠ .string s) :
    unwrapLibp2p method v = openEnvelope method v := by
  rw [unwrapLibp2p]
  split
  · rename_i s hview
    exact absurd (eq_string_of_view hview) (h s)
  · rfl

theorem unwrapLibp2p_string (hs : s ≠ "") : unwrapLibp2p method (.string s) =
    ((SerdeJson.fromStr s).mapError (method ++ ": reply parse: " ++ ·) >>=
      openEnvelope method) := by
  have hview : (Value.string s).view = .string s := rfl
  rw [unwrapLibp2p]
  simp only [hview, if_neg hs]

theorem unwrapLibp2p_empty : unwrapLibp2p method (.string "") = .ok (.string "") := rfl

/-- An envelope is opened, encoded once or twice. -/
theorem libp2pReply_carriesJson (h : CarriesJson raw env) (henv : ∀ s, env ≠ .string s) :
    libp2pReply method raw = openEnvelope method env := by
  rcases h with hraw | ⟨s, hraw, hs⟩
  · rw [libp2pReply, hraw.parseOk, unwrapLibp2p_other henv]
  · rw [libp2pReply, hraw.parseOk, unwrapLibp2p_string hs.1, hs.2]
    rfl

/-- A JSON text is longer than a string it stands for, and than the strings that stand
in the entries of an object it stands for. -/
def TextsLonger : Prop :=
  ∀ text v s, SerdeJson.fromStr text = .ok v →
    (v = .string s ∨ ∃ key, v.get key = some (.string s)) → s.length < text.length

theorem isJson_toText_string : IsJson (SerdeJson.toText (.string s)) (.string s) :=
  ⟨SerdeJson.toText_ne_empty _, (SerdeJson.toText_reads _).1 rfl⟩

/-- A string returned bare comes back only if it is empty. -/
theorem libp2pReply_string (hlonger : TextsLonger) (hraw : IsJson raw (.string s)) :
    libp2pReply method raw = .ok (.string s) ↔ s = "" := by
  rw [libp2pReply, hraw.parseOk]
  constructor
  · intro h
    by_contra hs
    rw [unwrapLibp2p_string hs] at h
    cases hread : SerdeJson.fromStr s with
    | error e =>
        rw [hread] at h
        cases h
    | ok env =>
        rw [hread] at h
        exact Nat.lt_irrefl _ (hlonger s env s hread (openEnvelope_string h))
  · rintro rfl
    exact unwrapLibp2p_empty

/-- A successful call returns what its reply is read as: the value or the error of an
envelope encoded once or twice, and a value that is no envelope as it is, unless it is a
string with anything in it. -/
theorem callLibp2p_unwraps (hlonger : TextsLonger) :
    (∀ who method args timeoutMs trace r,
      (callLibp2p who method args timeoutMs).After trace (.ret r) →
      ∀ event ∈ trace, ∀ json, Replied event json → r = libp2pReply method (json.getD "")) ∧
    (∀ method raw env v, CarriesJson raw env → env.get "success" = some (.bool true) →
      env.get "value" = some v → libp2pReply method raw = .ok v) ∧
    (∀ method raw env e, CarriesJson raw env → env.get "success" = some (.bool false) →
      env.get "error" = some (.string e) → libp2pReply method raw =
        .error (method ++ ": " ++ if e = "" then "libp2p call failed" else e)) ∧
    ∀ method v, v.get "success" = none →
      ((∀ raw, IsJson raw v → libp2pReply method raw = .ok v) ↔
        ∀ s, v = .string s → s = "") := by
  refine ⟨?_, ?_, ?_, ?_⟩
  · intro who method args timeoutMs trace r h event hmem json hreply
    exact callLibp2p_replied h hmem hreply
  · intro method raw env v hraw hsuccess hvalue
    rw [libp2pReply_carriesJson hraw (ne_string_of_get hsuccess),
      openEnvelope_success hsuccess hvalue]
  · intro method raw env e hraw hsuccess herror
    rw [libp2pReply_carriesJson hraw (ne_string_of_get hsuccess),
      openEnvelope_error hsuccess herror]
  · intro method v hbare
    constructor
    · rintro h s rfl
      exact (libp2pReply_string hlonger isJson_toText_string).mp (h _ isJson_toText_string)
    · intro hempty raw hraw
      by_cases hstring : ∃ s, v = .string s
      · obtain ⟨s, rfl⟩ := hstring
        exact (libp2pReply_string hlonger hraw).mpr (hempty s rfl)
      · have hother : ∀ s, v ≠ .string s := fun s hs => hstring ⟨s, hs⟩
        rw [libp2pReply_carriesJson (Or.inl hraw) hother, openEnvelope_bare hbare]

end Envelopes

/-- The envelope of a success. -/
def successEnvelope : Value :=
  .object [("success", .bool true), ("value", .string "peer")]

open Platform in
theorem textsLonger : TextsLonger := fun _ _ _ => length_lt_of_fromStr

open Platform in
theorem callLibp2p_unwraps_success :
    libp2pReply "peerId" (SerdeJson.toText successEnvelope) = .ok (.string "peer") := by
  have hjson : IsJson (SerdeJson.toText successEnvelope) successEnvelope :=
    ⟨SerdeJson.toText_ne_empty _, (SerdeJson.toText_reads _).1 (by decide +kernel)⟩
  exact (callLibp2p_unwraps textsLonger).2.1 "peerId" _ successEnvelope _ (Or.inl hjson)
    (by simp [successEnvelope, Value.object, Value.get_insert])
    (by simp [successEnvelope, Value.object, Value.get_insert])

open Platform in
/-- A string that is returned bare is lost. -/
theorem libp2pReply_bare_string :
    IsJson (SerdeJson.toText (.string "peer")) (.string "peer") ∧
      libp2pReply "peerId" (SerdeJson.toText (.string "peer")) ≠ .ok (.string "peer") :=
  ⟨isJson_toText_string, fun h => absurd
    ((libp2pReply_string textsLonger isJson_toText_string).mp h) (by decide)⟩

section Submitted

variable [SerdeJson] {cfg : ServerCfg} {idc : List UInt8} {rate : UInt64}

theorem moduleResult_ok {method : String} {seen : Seen} {v : Value}
    (h : moduleResult method seen = .ok v) :
    ∃ json, seen = .reply true json ∧ moduleReply method (json.getD "") = .ok v := by
  cases seen with
  | dispatchFailed rc => cases h
  | timedOut => cases h
  | reply ok json =>
      cases ok with
      | true => exact ⟨json, rfl, h⟩
      | false => cases h

theorem registerCall_unique {found polls : Trace} {outcome outcome' : Outcome}
    (hfound : ∀ event ∈ found, Lookup event.1)
    (hpolls : ∀ event ∈ polls, Polling cfg idc event.1)
    (h : (⟨registerCall cfg idc rate, outcome⟩ : Event Answer) ∈
      found ++ [⟨registerCall cfg idc rate, outcome'⟩] ++ polls) : outcome = outcome' := by
  rcases List.mem_append.mp h with hfront | hback
  · rcases List.mem_append.mp hfront with hlook | hcall
    · exact absurd (hfound _ hlook) id
    · have hevent := List.mem_singleton.mp hcall
      exact eq_of_heq (Sigma.mk.inj hevent).2
  · rcases hpolls _ hback with hlook | hpoll | hclock
    · exact absurd hlook id
    · have hmethod : "register_member" = "get_membership" :=
        (Op.invokeAsync.inj hpoll).2.1
      exact absurd hmethod (by decide)
    · cases hclock

/-- A registration that was called and is not refused for want of a submission is in
its confirmation loop or past it, and the call was answered with a text that is read. -/
theorem register_submitted {trace : Trace}
    {q : Prog (Except RegisterError MembershipAllocationSuccess)}
    (h : (register cfg idc rate).After trace q) {outcome : Outcome}
    (hcall : (⟨registerCall cfg idc rate, outcome⟩ : Event Answer) ∈ trace)
    (hq : ∀ msg, q ≠ .ret (.error (.notSubmitted msg))) :
    ∃ json reply, outcome.seen = .reply true json ∧
      moduleReply "register_member" (json.getD "") = .ok reply := by
  have hanswered : ∀ {found polls : Trace} {outcome' : Outcome} {reply : Value},
      (∀ event ∈ found, Lookup event.1) → (∀ event ∈ polls, Polling cfg idc event.1) →
      moduleResult "register_member" outcome'.seen = .ok reply →
      (⟨registerCall cfg idc rate, outcome⟩ : Event Answer) ∈
        found ++ [⟨registerCall cfg idc rate, outcome'⟩] ++ polls →
      ∃ json reply, outcome.seen = .reply true json ∧
        moduleReply "register_member" (json.getD "") = .ok reply := by
    intro found polls outcome' reply hfound hpolls hresult hmem
    obtain ⟨json, hseen, hreply⟩ := moduleResult_ok hresult
    rw [registerCall_unique hfound hpolls hmem]
    exact ⟨json, reply, hseen, hreply⟩
  cases register_after h with
  | calling found hfound => exact absurd (hfound _ hcall) id
  | unsent found hfound msg => exact absurd rfl (hq msg)
  | failed found hfound outcome msg => exact absurd rfl (hq msg)
  | confirming found hfound outcome' reply hresult polls hpolls =>
      exact hanswered hfound hpolls hresult hcall
  | settled found hfound outcome' reply hresult polls hpolls =>
      exact hanswered hfound hpolls hresult hcall

end Submitted

/-- On either thread a successful call returns what its reply is read as, and that is
right just when the reply has a text; and a registration goes on to its confirmation loop
with a value that `register_member` returned just when the reply it got has one. -/
theorem callModuleJson_reads [SerdeJson] :
    (∀ who target method args timeoutMs trace r,
      (callModuleJson who target method args timeoutMs).After trace (.ret r) →
      ∀ event ∈ trace, ∀ json, Replied event json → r = moduleReply method (json.getD "")) ∧
    (∀ method raw, ReadsReply method raw ↔ raw ≠ "") ∧
    ∀ cfg idc rate trace q, (register cfg idc rate).After trace q →
      ∀ outcome, (⟨registerCall cfg idc rate, outcome⟩ : Event Answer) ∈ trace →
      (∀ msg, q ≠ .ret (.error (.notSubmitted msg))) →
      ∃ json, outcome.seen = .reply true json ∧
        (Returned (json.getD "") ↔ json.getD "" ≠ "") := by
  refine ⟨?_, fun _ _ => readsReply_iff, ?_⟩
  · intro who target method args timeoutMs trace r h event hmem json hreply
    exact callModuleJson_replied h hmem hreply
  · intro cfg idc rate trace q h outcome hcall hq
    obtain ⟨json, reply, hseen, hreply⟩ := register_submitted h hcall hq
    exact ⟨json, hseen, returned_of_ok hreply⟩

open Platform in
/-- A call that succeeded without a reply returns the value null. -/
theorem moduleReply_empty :
    moduleReply "register_member" "" = .ok .null ∧ ¬ ReadsReply "register_member" "" :=
  ⟨rfl, fun h => absurd rfl (readsReply_iff.mp h)⟩

end RlnGifter
