/-
What `serve` and `on_context_ready` have done at any point of a run: they call
and look up, and `serve` merges the file it names before it installs a
configuration that names the same file.
-/
import RlnGifter.Server

namespace RlnGifter

open Program

/-- Looking up, opening and calling other modules. -/
def Calling : Op → Prop
  | .findClient _ | .createClient _ | .readOwner | .invoke _ _ _ _
  | .invokeAsync _ _ _ _ => True
  | _ => False

theorem createClient_only (target : String) : (createClient target).Only Calling := by
  rw [createClient]
  split
  · trivial
  · exact only_perform trivial

theorem onOwnerThread_only (who : Caller) : (onOwnerThread who).Only Calling :=
  ⟨trivial, fun _ => trivial⟩

theorem ensureClient_only (who : Caller) (target : String) :
    (ensureClient who target).Only Calling := by
  rw [ensureClient]
  refine ⟨trivial, fun found => ?_⟩
  cases found
  · apply only_bind (onOwnerThread_only who)
    intro owner
    cases owner
    · trivial
    · apply only_bind (createClient_only target)
      intro created
      cases created <;> trivial
  · trivial

theorem clientPtr_only (who : Caller) (target : String) :
    (clientPtr who target).Only Calling := by
  have hfind : (perform (.findClient target)).Only Calling := only_perform trivial
  rw [clientPtr]
  refine ⟨trivial, fun found => ?_⟩
  cases found
  · apply only_bind (onOwnerThread_only who)
    intro owner
    cases owner
    · exact hfind
    · apply only_bind (createClient_only target)
      intro created
      exact hfind
  · exact hfind

/-- What `on_context_ready` does: record the owner and open clients. -/
theorem init_only (targets : List String) :
    (init targets).Only fun e => e = .recordOwner ∨ Calling e := by
  have hcreate : ∀ targets : List String,
      (targets.forM fun target => do
        let _ ← createClient target : Prog PUnit).Only
          fun e => e = .recordOwner ∨ Calling e := by
    intro targets
    induction targets with
    | nil => trivial
    | cons target targets ih =>
        have hone : (createClient target).Only fun e => e = .recordOwner ∨ Calling e :=
          only_mono (fun _ => Or.inr) (createClient_only target)
        exact only_bind (only_bind hone fun _ => only_ret _) fun _ => ih
  exact ⟨Or.inl rfl, fun _ => hcreate targets⟩

section Calls

variable [SerdeJson]

theorem callJson_only (who : Caller) (target method : String) (args : Value)
    (timeoutMs : Int) : (callJson who target method args timeoutMs).Only Calling := by
  rw [callJson]
  apply only_bind (clientPtr_only who target)
  intro ptr
  split
  · split
    · trivial
    · apply only_bind (onOwnerThread_only who)
      intro owner
      split
      · exact ⟨trivial, fun _ => trivial⟩
      · exact ⟨trivial, fun _ => trivial⟩
  · trivial

theorem callLibp2p_only (who : Caller) (method : String) (args : Value)
    (timeoutMs : Int) : (callLibp2p who method args timeoutMs).Only Calling :=
  only_bind (callJson_only who libp2pModule method args timeoutMs) fun _ => only_ret _

end Calls

section Serve

theorem openVerifiers_only (entries : List (String × Value)) :
    (openVerifiers entries).Only Calling := by
  induction entries with
  | nil => trivial
  | cons entry rest ih =>
      obtain ⟨atype, v⟩ := entry
      rw [openVerifiers]
      split
      · trivial
      · apply only_bind (ensureClient_only _ _)
        intro opened
        split
        · trivial
        · apply only_bind ih
          intro verifiers
          split <;> trivial

/-- An entry of the verifier map stands for one of the `authVerifiers` object:
the same type, its non-empty module and its config. -/
structure StandsFor (installed : String × String × Option Value) (entry : String × Value) :
    Prop where
  type : installed.1 = entry.1
  nonempty : installed.2.1 ≠ ""
  module : (entry.2.get "module").bind Value.asStr = some installed.2.1
  config : installed.2.2 = entry.2.get "config"

theorem openVerifiers_standsFor {entries : List (String × Value)} {trace : Trace}
    {verifiers : List (String × String × Option Value)}
    (h : (openVerifiers entries).After trace (.ret (.ok verifiers))) :
    List.Forall₂ StandsFor verifiers entries := by
  induction entries generalizing trace verifiers with
  | nil =>
      have heq := (ret_after.mp h).2
      cases heq
      exact .nil
  | cons entry rest ih =>
      obtain ⟨atype, v⟩ := entry
      rw [openVerifiers] at h
      split at h
      · cases (ret_after.mp h).2
      · rename_i hmodule
        obtain ⟨first, second, opened, -, -, h⟩ := bind_after_ret h
        cases opened with
        | error e => cases (ret_after.mp h).2
        | ok _ =>
            obtain ⟨first', second', result, -, hrest, h⟩ := bind_after_ret h
            cases result with
            | error e => cases (ret_after.mp h).2
            | ok verifiers' =>
                have heq := (ret_after.mp h).2
                cases heq
                refine .cons ⟨rfl, hmodule, ?_, rfl⟩ (ih hrest)
                cases hget : (v.get "module").bind Value.asStr with
                | none =>
                    rw [hget] at hmodule
                    exact absurd rfl hmodule
                | some name => rfl

/-- The types configured are the keys of the object. -/
theorem openVerifiers_types {entries : List (String × Value)} {trace : Trace}
    {verifiers : List (String × String × Option Value)}
    (h : (openVerifiers entries).After trace (.ret (.ok verifiers))) :
    verifiers.map Prod.fst = entries.map Prod.fst := by
  have hall := openVerifiers_standsFor h
  clear h
  induction hall with
  | nil => rfl
  | cons hhead _ ih => rw [List.map_cons, List.map_cons, hhead.type, ih]

/-- The path `serve` names in its arguments. -/
def pathOf (a : Value) : String :=
  ((a.get "consumedNullifiersPath").bind Value.asStr).getD ""

/-- The authentication types `serve` is given. -/
def typesOf (a : Value) : List String :=
  match (a.get "authVerifiers").map Value.view with
  | some (.object entries) => entries.map Prod.fst
  | _ => []

theorem readVerifiers_only (a : Value) : (readVerifiers a).Only Calling := by
  rw [readVerifiers]
  split
  · trivial
  · trivial
  · exact openVerifiers_only _
  · trivial

theorem readVerifiers_types {a : Value} {trace : Trace}
    {verifiers : List (String × String × Option Value)}
    (h : (readVerifiers a).After trace (.ret (.ok verifiers))) :
    verifiers.map Prod.fst = typesOf a := by
  rw [readVerifiers] at h
  rw [typesOf]
  split at h
  · rename_i hview
    cases (ret_after.mp h).2
    rw [hview]
    rfl
  · rename_i hview
    cases (ret_after.mp h).2
    rw [hview]
    rfl
  · rename_i entries hview
    rw [hview]
    exact openVerifiers_types h
  · cases (ret_after.mp h).2

/-- What `serve` does once the configuration is installed. -/
def Mounting (e : Op) : Prop :=
  Calling e ∨ e = .swapServing ∨ e = .clearServing ∨ e = .spawnWorker

variable [SerdeJson]

theorem mount_only : mount.Only Mounting := by
  rw [mount]
  refine ⟨Or.inr (Or.inl rfl), fun serving => ?_⟩
  cases serving
  · apply only_bind (only_mono (fun _ => Or.inl) (callLibp2p_only _ _ _ _))
    intro mounted
    cases mounted
    · exact ⟨Or.inr (Or.inr (Or.inl rfl)), fun _ => trivial⟩
    · exact ⟨Or.inr (Or.inr (Or.inr rfl)), fun _ => trivial⟩
  · trivial

/-- The runs of `serve`, by what it is about to do: preparing, about to install
the configuration after the merge, and mounting. -/
inductive ServeRun (argsJson : String) : Trace → Option Op → Prop where
  | preparing (called : Trace) (hcalled : ∀ event ∈ called, Calling event.1)
      (pending : Option Op)
      (h : ∀ e, pending = some e → Calling e ∨ ∃ a,
        SerdeJson.fromStr argsJson = .ok a ∧ e = .merge (pathOf a)) :
      ServeRun argsJson called pending
  | merged (called : Trace) (hcalled : ∀ event ∈ called, Calling event.1) (a : Value)
      (ha : SerdeJson.fromStr argsJson = .ok a) (loaded : Finset String)
      (cfg : ServerCfg) (hpath : cfg.nullifiersPath = pathOf a)
      (htypes : cfg.authVerifiers.map Prod.fst = typesOf a) :
      ServeRun argsJson (called ++ [⟨.merge (pathOf a), loaded⟩])
        (some (.storeServer cfg))
  | mounting (called : Trace) (hcalled : ∀ event ∈ called, Calling event.1) (a : Value)
      (ha : SerdeJson.fromStr argsJson = .ok a) (loaded : Finset String)
      (cfg : ServerCfg) (hpath : cfg.nullifiersPath = pathOf a)
      (htypes : cfg.authVerifiers.map Prod.fst = typesOf a) (mounted : Trace)
      (hmounted : ∀ event ∈ mounted, Mounting event.1) (pending : Option Op)
      (h : ∀ e, pending = some e → Mounting e) :
      ServeRun argsJson
        (called ++ [⟨.merge (pathOf a), loaded⟩, ⟨.storeServer cfg, ()⟩] ++ mounted)
        pending

theorem serve_after {argsJson : String} {trace : Trace}
    {q : Prog (Except String Value)} (h : (serve argsJson).After trace q) :
    ServeRun argsJson trace q.pending := by
  have hend : ∀ {p : Prog (Except String Value)} {result : Except String Value},
      p = .ret result → p.After trace q → ServeRun argsJson trace q.pending := by
    rintro _ result rfl h
    obtain ⟨rfl, rfl⟩ := ret_after.mp h
    exact .preparing [] (by simp) none (by simp)
  rw [serve] at h
  split at h
  · exact hend rfl h
  · rename_i a ha
    split at h
    · exact hend rfl h
    · split at h
      · exact hend rfl h
      · rename_i config hconfig wallet hwallet
        rcases bind_after h with ⟨e, next, hread, rfl⟩ |
          ⟨called, rest, result, rfl, hread, hrest⟩
        · obtain ⟨hcalled, he⟩ := only_after (readVerifiers_only a) hread
          refine .preparing trace hcalled _ ?_
          intro e' he'
          obtain rfl := Option.some.inj he'
          exact Or.inl he.1
        · have hcalled := (only_after (readVerifiers_only a) hread).1
          cases result with
          | error e =>
              obtain ⟨rfl, rfl⟩ := ret_after.mp hrest
              rw [List.append_nil]
              exact .preparing called hcalled none (by simp)
          | ok authVerifiers =>
              have htypes := readVerifiers_types hread
              simp only [perform_bind] at hrest
              rcases op_after.mp hrest with ⟨rfl, rfl⟩ | ⟨loaded, rest', rfl, hrest'⟩
              · rw [List.append_nil]
                refine .preparing called hcalled _ ?_
                intro e he
                obtain rfl := Option.some.inj he
                exact Or.inr ⟨a, ha, rfl⟩
              · rcases op_after.mp hrest' with ⟨rfl, rfl⟩ | ⟨_, mounted, rfl, hmount⟩
                · exact .merged called hcalled a ha loaded _ rfl htypes
                · obtain ⟨hmounted, hq⟩ := only_after mount_only hmount
                  have hsplit : ∀ (x y : Event Answer),
                      called ++ x :: y :: mounted = called ++ [x, y] ++ mounted := by
                    simp
                  rw [hsplit]
                  refine .mounting called hcalled a ha loaded _ rfl htypes mounted
                    hmounted _ ?_
                  intro e he
                  obtain ⟨next, rfl⟩ := pending_eq_some.mp he
                  exact hq.1

end Serve

end RlnGifter
