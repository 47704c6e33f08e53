/-
Pools that follow other programs.  A program may run tasks one after another, with
operations of its own in between; a pool follows it when its threads run these tasks, and
then the program's trace is woven of its own operations and the traces of the threads.
-/
import RlnGifter.Pool

namespace RlnGifter

variable {E : Type} {A : E → Type} {σ τ ρ Env α β : Type}

namespace Program

/-- Programs that run tasks of a `kind`, with operations in `own` in between. -/
inductive Runs (body : τ → Program E A ρ) (kind : τ → Prop) (own : E → Prop) :
    Program E A α → Prop where
  | ret (value : α) : Runs body kind own (.ret value)
  | op {e : E} {next : A e → Program E A α} (he : own e)
      (hnext : ∀ answer, Runs body kind own (next answer)) : Runs body kind own (.op e next)
  | task {β : Type} {task : τ} (hkind : kind task) {p : Program E A β} {g : β → ρ}
      (hbody : body task = p >>= fun value => .ret (g value)) {f : β → Program E A α}
      (hrest : ∀ value, Runs body kind own (f value)) : Runs body kind own (p >>= f)

variable {body : τ → Program E A ρ} {kind : τ → Prop} {own : E → Prop}

/-- The first part of a sequence keeps to what the sequence does. -/
theorem only_left {ok : E → Prop} {p : Program E A α} {f : α → Program E A β}
    (h : (p >>= f).Only ok) : p.Only ok := by
  induction p with
  | ret value => trivial
  | op e next ih => exact ⟨h.1, fun answer => ih answer (h.2 answer)⟩

theorem runs_of_only {p : Program E A α} (h : p.Only own) : Runs body kind own p := by
  induction p with
  | ret value => exact .ret value
  | op e next ih => exact .op h.1 fun answer => ih answer (h.2 answer)

theorem Runs.bind {p : Program E A α} {f : α → Program E A β} (hp : Runs body kind own p)
    (hf : ∀ value, Runs body kind own (f value)) : Runs body kind own (p >>= f) := by
  induction hp with
  | ret value => exact hf value
  | op he _ ih => exact .op he ih
  | task hkind hbody _ ih =>
      rw [bind_bind]
      exact .task hkind hbody ih

/-- What the tasks and the program itself keep to, the program keeps to. -/
theorem Runs.only {ok : E → Prop} {p : Program E A α} (h : Runs body kind own p)
    (hown : ∀ e, own e → ok e) (htasks : ∀ task, kind task → (body task).Only ok) :
    p.Only ok := by
  induction h with
  | ret value => trivial
  | op he _ ih => exact ⟨hown _ he, ih⟩
  | task hkind hbody _ ih =>
      have htask := htasks _ hkind
      rw [hbody] at htask
      exact only_bind (only_left htask) ih

/-- What such a program does first is its own, or the first operation of a task. -/
theorem Runs.op_cases {e : E} {next : A e → Program E A α}
    (h : Runs body kind own (.op e next)) :
    (own e ∧ ∀ answer, Runs body kind own (next answer)) ∨
      ∃ (γ : Type) (task : τ) (r : A e → Program E A γ) (g : γ → ρ) (f : γ → Program E A α),
        kind task ∧ body task = .op e r >>= (fun value => .ret (g value)) ∧
        (next = fun answer => r answer >>= f) ∧ ∀ value, Runs body kind own (f value) := by
  generalize hp : (Program.op e next : Program E A α) = p at h
  induction h with
  | ret value => cases hp
  | op he hnext =>
      cases hp
      exact Or.inl ⟨he, hnext⟩
  | @task γ task hkind r g hbody f hrest ih =>
      cases r with
      | ret value => exact ih value hp
      | op e' r =>
          cases hp
          exact Or.inr ⟨γ, task, r, g, f, hkind, hbody, rfl, hrest⟩

end Program

namespace System

variable {sys : System E A σ τ ρ Env} {P Q : Pool E A σ τ ρ}

/-- There are ids for more threads. -/
def Roomy (P : Pool E A σ τ ρ) : Prop :=
  ∃ bound, ∀ id, bound ≤ id → P.threads id = none

theorem roomy_initial (s : σ) : Roomy (Pool.initial s : Pool E A σ τ ρ) :=
  ⟨0, fun _ _ => rfl⟩

theorem Roomy.put (h : Roomy P) (s : σ) (id : Nat) (th : Thread E A τ ρ) :
    Roomy (put P s id th) := by
  obtain ⟨bound, hbound⟩ := h
  refine ⟨max bound (id + 1), fun other hother => ?_⟩
  have hne : other ≠ id := by omega
  rw [put_other hne]
  exact hbound other (by omega)

/-- By decisions with `ok` the pool comes from `P` to `Q`, which has the state `s`, and in
which the threads with `keep` are as they were. -/
structure Reaches (sys : System E A σ τ ρ Env) (ok : Action τ Env → Prop)
    (keep : Thread E A τ ρ → Prop) (P : Pool E A σ τ ρ) (s : σ) (Q : Pool E A σ τ ρ) :
    Prop where
  run : ∃ actions, (∀ action ∈ actions, ok action) ∧ Q = sys.run P actions
  shared : Q.shared = s
  epoch : Q.epoch = P.epoch
  threads : ∀ id th, P.threads id = some th → keep th → Q.threads id = some th
  roomy : Roomy Q

variable {ok : Action τ Env → Prop} {keep : Thread E A τ ρ → Prop}

theorem reaches_refl (h : Roomy P) : Reaches sys ok keep P P.shared P where
  run := ⟨[], by simp, rfl⟩
  shared := rfl
  epoch := rfl
  threads _ _ hth _ := hth
  roomy := h

theorem Reaches.weaken {keep' : Thread E A τ ρ → Prop} {s : σ}
    (h : Reaches sys ok keep P s Q) (himp : ∀ th, keep' th → keep th) :
    Reaches sys ok keep' P s Q :=
  { h with threads := fun id th hth hkeep => h.threads id th hth (himp th hkeep) }

/-- A thread that need not be kept takes a step. -/
theorem reaches_act (h : Roomy P) {id : Nat} {th : Thread E A τ ρ} {e : E}
    {next : A e → Program E A ρ} (hth : P.threads id = some th) (hepoch : th.epoch = P.epoch)
    (hprog : th.prog = .op e next) (hkeep : ¬ keep th) {env : Env} (hok : ok (.act id env)) :
    Reaches sys ok keep P (sys.exec env P.shared e).2 (put P (sys.exec env P.shared e).2 id
      (th.advance ⟨e, (sys.exec env P.shared e).1⟩ (next (sys.exec env P.shared e).1))) where
  run := by
    refine ⟨[.act id env], by simpa using hok, ?_⟩
    rw [run_cons, run_nil]
    simp [step, hth, hepoch, hprog]
  shared := rfl
  epoch := rfl
  threads other found hfound hkept := by
    by_cases hid : other = id
    · subst hid
      cases hth.symm.trans hfound
      exact absurd hkept hkeep
    · rw [put_other hid]
      exact hfound
  roomy := h.put _ _ _

/-- A new thread does what its task does alone. -/
theorem reaches_solo (h : Roomy P) {task : τ} {s : σ} {envs : List Env}
    {trace : List (Event A)} {q : Program E A ρ} (hspawn : ∀ id, ok (.spawn id task))
    (hact : ∀ id, ∀ env ∈ envs, ok (.act id env))
    (hdoes : Program.Does sys.exec (sys.body task) P.shared envs trace q s) :
    ∃ id, P.threads id = none ∧
      Reaches sys ok keep P s (put P s id ⟨task, P.epoch, q, trace⟩) := by
  obtain ⟨bound, hbound⟩ := id h
  have hnone : P.threads bound = none := hbound bound (Nat.le_refl _)
  refine ⟨bound, hnone, ⟨⟨solo bound task envs, ?_, (sys.run_solo hnone hdoes).symm⟩, rfl, rfl,
    ?_, h.put _ _ _⟩⟩
  · simp only [solo, acts, List.forall_mem_cons, List.forall_mem_map]
    exact ⟨hspawn bound, hact bound⟩
  · intro other found hfound _
    rw [put_other]
    · exact hfound
    · rintro rfl
      cases hnone.symm.trans hfound

/-- The traces of the threads `ids`, all of them in `part`, one after another, with
operations in `own` in between. -/
inductive Woven (own : E → Prop) (part : Thread E A τ ρ → Prop) (P : Pool E A σ τ ρ) :
    List (Event A) → List Nat → Prop where
  | nil : Woven own part P [] []
  | own {trace : List (Event A)} {ids : List Nat} (h : Woven own part P trace ids) {e : E}
      (he : own e) (answer : A e) : Woven own part P (trace ++ [⟨e, answer⟩]) ids
  | thread {trace : List (Event A)} {ids : List Nat} (h : Woven own part P trace ids) {id : Nat}
      (hnew : id ∉ ids) {th : Thread E A τ ρ} (hth : P.threads id = some th)
      (hpart : part th) : Woven own part P (trace ++ th.trace) (ids ++ [id])

variable {own : E → Prop} {part : Thread E A τ ρ → Prop} {trace : List (Event A)}
  {ids : List Nat}

theorem Woven.congr (h : Woven own part P trace ids)
    (hsame : ∀ id ∈ ids, Q.threads id = P.threads id) : Woven own part Q trace ids := by
  induction h with
  | nil => exact .nil
  | own _ he answer ih => exact .own (ih hsame) he answer
  | @thread _ ids _ id hnew _ hth hpart ih =>
      simp only [List.mem_append, List.mem_singleton] at hsame
      refine .thread (ih fun other hother => hsame other (Or.inl hother)) hnew ?_ hpart
      rw [hsame id (Or.inr rfl), hth]

/-- The threads of a weaving are there, each in it once. -/
theorem Woven.threads (h : Woven own part P trace ids) :
    ids.Nodup ∧ ∀ id ∈ ids, ∃ th, P.threads id = some th ∧ part th := by
  induction h with
  | nil => simp
  | own _ _ _ ih => exact ih
  | @thread _ ids _ id hnew th hth hpart ih =>
      refine ⟨?_, fun other hother => ?_⟩
      · rw [List.nodup_append]
        refine ⟨ih.1, by simp, ?_⟩
        rintro other hother _ hid rfl
        rw [List.mem_singleton.mp hid] at hother
        exact hnew hother
      · rcases List.mem_append.mp hother with hother | hother
        · exact ih.2 other hother
        · rw [List.mem_singleton.mp hother]
          exact ⟨th, hth, hpart⟩

/-- What a weaving does is of its own, or what one of its threads does. -/
theorem Woven.event (h : Woven own part P trace ids) {event : Event A} (hmem : event ∈ trace) :
    own event.1 ∨ ∃ id th, P.threads id = some th ∧ part th ∧ event ∈ th.trace := by
  induction h with
  | nil => cases hmem
  | own _ he answer ih =>
      rcases List.mem_append.mp hmem with hmem | hmem
      · exact ih hmem
      · rw [List.mem_singleton.mp hmem]
        exact Or.inl he
  | @thread _ _ _ id _ th hth hpart ih =>
      rcases List.mem_append.mp hmem with hmem | hmem
      · exact ih hmem
      · exact Or.inr ⟨id, th, hth, hpart, hmem⟩

theorem Woven.mono (h : Woven own part P trace ids)
    (hkept : ∀ id th, P.threads id = some th → part th → Q.threads id = some th) :
    Woven own part Q trace ids := by
  refine h.congr fun id hid => ?_
  obtain ⟨th, hth, hpart⟩ := h.threads.2 id hid
  rw [hkept id th hth hpart, hth]

/-- The threads that one process started for tasks of a kind. -/
def Part (kind : τ → Prop) (epoch : Nat) (th : Thread E A τ ρ) : Prop :=
  kind th.task ∧ th.epoch = epoch

/-- The program has done `trace`, and goes on: between its tasks, or inside one, which is
the last of the threads `ids`. -/
inductive Follows (sys : System E A σ τ ρ Env) (kind : τ → Prop) (own : E → Prop)
    (P : Pool E A σ τ ρ) (p : Program E A α) : List (Event A) → List Nat → Prop where
  | between {trace : List (Event A)} {ids : List Nat} (hp : p.Runs sys.body kind own)
      (hwoven : Woven own (Part kind P.epoch) P trace ids) : Follows sys kind own P p trace ids
  | inside {trace : List (Event A)} {ids : List Nat}
      (hwoven : Woven own (Part kind P.epoch) P trace ids) {id : Nat} (hnew : id ∉ ids)
      {th : Thread E A τ ρ} (hth : P.threads id = some th) (hpart : Part kind P.epoch th)
      {β : Type} {r : Program E A β} {g : β → ρ}
      (hprog : th.prog = r >>= fun value => .ret (g value)) {f : β → Program E A α}
      (hp : p = r >>= f) (hrest : ∀ value, (f value).Runs sys.body kind own) :
      Follows sys kind own P p (trace ++ th.trace) (ids ++ [id])

variable {kind : τ → Prop} {p : Program E A α}

theorem Follows.woven (h : Follows sys kind own P p trace ids) :
    Woven own (Part kind P.epoch) P trace ids := by
  cases h with
  | between _ hwoven => exact hwoven
  | inside hwoven hnew hth hpart => exact .thread hwoven hnew hth hpart

theorem Follows.mono (h : Follows sys kind own P p trace ids) (hepoch : Q.epoch = P.epoch)
    (hkept : ∀ id th, P.threads id = some th → kind th.task → Q.threads id = some th) :
    Follows sys kind own Q p trace ids := by
  have hwoven : ∀ {trace ids}, Woven own (Part kind P.epoch) P trace ids →
      Woven own (Part kind Q.epoch) Q trace ids := by
    intro trace ids h
    rw [hepoch]
    exact h.mono fun id th hth hpart => hkept id th hth hpart.1
  cases h with
  | between hp h => exact .between hp (hwoven h)
  | inside h hnew hth hpart hprog hp hrest =>
      refine .inside (hwoven h) hnew (hkept _ _ hth hpart.1) ?_ hprog hp hrest
      rw [hepoch]
      exact hpart

/-- From between its tasks the program takes a step of its own, or a new thread begins. -/
theorem follows_op (hown : ∀ e env s, own e → (sys.exec env s e).2 = s)
    (hspawn : ∀ id task, kind task → ok (.spawn id task)) (hroom : Roomy P) {e : E} {next : A e → Program E A α} (hp : (Program.op e next).Runs sys.body kind own)
    (hwoven : Woven own (Part kind P.epoch) P trace ids) {env : Env}
    (hact : ∀ id, ok (.act id env)) :
    ∃ Q, Reaches sys ok (fun th => ¬ Part kind P.epoch th) P (sys.exec env P.shared e).2 Q ∧
      ∃ ids', Follows sys kind own Q (next (sys.exec env P.shared e).1)
        (trace ++ [⟨e, (sys.exec env P.shared e).1⟩]) ids' := by
  rcases hp.op_cases with ⟨he, hnext⟩ | ⟨γ, task, r, g, f, hkind, hbody, rfl, hrest⟩
  · refine ⟨P, ?_, ids, .between (hnext _) (.own hwoven he _)⟩
    rw [hown e env P.shared he]
    exact reaches_refl hroom
  · have hdoes : Program.Does sys.exec (sys.body task) P.shared [env]
        [⟨e, (sys.exec env P.shared e).1⟩]
        (r (sys.exec env P.shared e).1 >>= fun value => .ret (g value))
        (sys.exec env P.shared e).2 := by
      rw [hbody]
      exact .act (.done _ _)
    obtain ⟨id, hnone, hreaches⟩ := reaches_solo hroom (fun id => hspawn id task hkind)
      (fun id env' henv => List.mem_singleton.mp henv ▸ hact id) hdoes
    have hnew : id ∉ ids := by
      intro hid
      obtain ⟨th, hth, -⟩ := hwoven.threads.2 id hid
      cases hnone.symm.trans hth
    refine ⟨_, hreaches, ids ++ [id], .inside ?_ hnew (put_same ..) ⟨hkind, rfl⟩ rfl rfl hrest⟩
    refine hwoven.congr fun other hother => put_other ?_
    rintro rfl
    exact hnew hother

/-- The step lemma: whatever the program does next, the pool does. -/
theorem Follows.step (hown : ∀ e env s, own e → (sys.exec env s e).2 = s)
    (hspawn : ∀ id task, kind task → ok (.spawn id task)) (hroom : Roomy P) {e : E}
    {next : A e → Program E A α} (h : Follows sys kind own P (.op e next) trace ids)
    {env : Env} (hact : ∀ id, ok (.act id env)) :
    ∃ Q, Reaches sys ok (fun th => ¬ Part kind P.epoch th) P (sys.exec env P.shared e).2 Q ∧
      ∃ ids', Follows sys kind own Q (next (sys.exec env P.shared e).1)
        (trace ++ [⟨e, (sys.exec env P.shared e).1⟩]) ids' := by
  cases h with
  | between hp hwoven => exact follows_op hown hspawn hroom hp hwoven hact
  | @inside trace ids hwoven id hnew th hth hpart β r g hprog f hp hrest =>
      cases r with
      | ret value =>
          have hnext : (Program.op e next).Runs sys.body kind own := by
            rw [hp]
            exact hrest value
          exact follows_op hown hspawn hroom hnext (.thread hwoven hnew hth hpart) hact
      | op e' r =>
          cases hp
          refine ⟨_, reaches_act hroom hth hpart.2 hprog (fun hkeep => hkeep hpart)
            (hact id),
            ids ++ [id], ?_⟩
          rw [List.append_assoc]
          refine .inside ?_ hnew (put_same ..) hpart rfl rfl hrest
          refine hwoven.congr fun other hother => put_other ?_
          rintro rfl
          exact hnew hother

end System

end RlnGifter
