/-
Threads running programs over one shared state, interleaved at their operations
in any order, in a process that may stop at any point and start again.  Every
thread keeps the trace of what it did, so properties of runs are properties of
the pool a run ends in.
-/
import Mathlib.Data.List.Induction
import RlnGifter.Program

namespace RlnGifter

variable {E : Type} {A : E → Type} {σ τ ρ Env : Type}

/-- What a pool executes.  `exec env s e` answers operation `e` in shared state
`s`, where `env` holds every choice that is not the program's; `body` is what a
task runs, and `reboot` what a new process finds of the shared state. -/
structure System (E : Type) (A : E → Type) (σ τ ρ Env : Type) where
  exec : Env → σ → (e : E) → A e × σ
  body : τ → Program E A ρ
  reboot : σ → σ

/-- One thread: its task, the process it was started in, what is left of its
program and what it has done. -/
structure Thread (E : Type) (A : E → Type) (τ ρ : Type) where
  task : τ
  epoch : Nat
  prog : Program E A ρ
  trace : List (Event A)

/-- All threads there have ever been.  Those of an earlier `epoch` died with
their process. -/
structure Pool (E : Type) (A : E → Type) (σ τ ρ : Type) where
  shared : σ
  epoch : Nat
  threads : Nat → Option (Thread E A τ ρ)

/-- One scheduling decision. -/
inductive Action (τ Env : Type) where
  | spawn (id : Nat) (task : τ)
  | act (id : Nat) (env : Env)
  | restart

/-- The pool a first process starts with. -/
def Pool.initial (s : σ) : Pool E A σ τ ρ :=
  ⟨s, 0, fun _ => none⟩

/-- The same thread after one more event. -/
def Thread.advance (th : Thread E A τ ρ) (event : Event A)
    (prog : Program E A ρ) : Thread E A τ ρ :=
  { th with prog := prog, trace := th.trace ++ [event] }

namespace System

variable (sys : System E A σ τ ρ Env)

/-- A thread that has done nothing yet. -/
def start (P : Pool E A σ τ ρ) (task : τ) : Thread E A τ ρ :=
  ⟨task, P.epoch, sys.body task, []⟩

/-- The pool in which thread `id` is `th`. -/
def put (P : Pool E A σ τ ρ) (s : σ) (id : Nat) (th : Thread E A τ ρ) :
    Pool E A σ τ ρ :=
  { P with shared := s, threads := Function.update P.threads id (some th) }

/-- One step of the pool.  Spawning over a thread that exists, and acting with
a thread that does not exist, has returned or died, change nothing. -/
def step (P : Pool E A σ τ ρ) : Action τ Env → Pool E A σ τ ρ
  | .spawn id task =>
      match P.threads id with
      | some _ => P
      | none => put P P.shared id (sys.start P task)
  | .act id env =>
      match P.threads id with
      | none => P
      | some th =>
          if th.epoch = P.epoch then
            match th.prog with
            | .ret _ => P
            | .op e next =>
                let reply := sys.exec env P.shared e
                put P reply.2 id (th.advance ⟨e, reply.1⟩ (next reply.1))
          else P
  | .restart => { P with shared := sys.reboot P.shared, epoch := P.epoch + 1 }

/-- The pool after a list of scheduling decisions. -/
def run (P : Pool E A σ τ ρ) (actions : List (Action τ Env)) :
    Pool E A σ τ ρ :=
  actions.foldl sys.step P

@[simp] theorem run_nil (P : Pool E A σ τ ρ) : sys.run P [] = P := rfl

@[simp] theorem run_cons (P : Pool E A σ τ ρ) (action : Action τ Env)
    (actions : List (Action τ Env)) :
    sys.run P (action :: actions) = sys.run (sys.step P action) actions := rfl

theorem run_append (P : Pool E A σ τ ρ) (first second : List (Action τ Env)) :
    sys.run P (first ++ second) = sys.run (sys.run P first) second :=
  List.foldl_append

/-- Every decision of the run meets `ok` in the pool it is taken in. -/
def Guarded (ok : Pool E A σ τ ρ → Action τ Env → Prop) :
    Pool E A σ τ ρ → List (Action τ Env) → Prop
  | _, [] => True
  | P, action :: actions =>
      ok P action ∧ Guarded ok (sys.step P action) actions

theorem guarded_append {ok : Pool E A σ τ ρ → Action τ Env → Prop}
    {P : Pool E A σ τ ρ} {first second : List (Action τ Env)} :
    sys.Guarded ok P (first ++ second) ↔
      sys.Guarded ok P first ∧ sys.Guarded ok (sys.run P first) second := by
  induction first generalizing P with
  | nil => simp [Guarded]
  | cons action first ih => simp [Guarded, ih, and_assoc]

theorem guarded_mono {ok ok' : Pool E A σ τ ρ → Action τ Env → Prop}
    (himp : ∀ P action, ok P action → ok' P action) {P : Pool E A σ τ ρ}
    {actions : List (Action τ Env)} (hguarded : sys.Guarded ok P actions) :
    sys.Guarded ok' P actions := by
  induction actions generalizing P with
  | nil => trivial
  | cons action actions ih =>
      exact ⟨himp P action hguarded.1, ih hguarded.2⟩

theorem guarded_and {ok ok' : Pool E A σ τ ρ → Action τ Env → Prop}
    {P : Pool E A σ τ ρ} {actions : List (Action τ Env)}
    (h : sys.Guarded ok P actions) (h' : sys.Guarded ok' P actions) :
    sys.Guarded (fun P action => ok P action ∧ ok' P action) P actions := by
  induction actions generalizing P with
  | nil => trivial
  | cons action actions ih => exact ⟨⟨h.1, h'.1⟩, ih h.2 h'.2⟩

/-- The invariant rule for guarded runs. -/
theorem guarded_invariant {ok : Pool E A σ τ ρ → Action τ Env → Prop}
    (Inv : Pool E A σ τ ρ → Prop)
    (hstep : ∀ P action, Inv P → ok P action → Inv (sys.step P action))
    {P : Pool E A σ τ ρ} {actions : List (Action τ Env)} (hinit : Inv P)
    (hguarded : sys.Guarded ok P actions) : Inv (sys.run P actions) := by
  induction actions generalizing P with
  | nil => exact hinit
  | cons action actions ih =>
      exact ih (hstep P action hinit hguarded.1) hguarded.2

/-- The invariant rule for all runs. -/
theorem run_invariant (Inv : Pool E A σ τ ρ → Prop)
    (hstep : ∀ P action, Inv P → Inv (sys.step P action))
    {P : Pool E A σ τ ρ} (actions : List (Action τ Env)) (hinit : Inv P) :
    Inv (sys.run P actions) := by
  induction actions generalizing P with
  | nil => exact hinit
  | cons action actions ih => exact ih (hstep P action hinit)

/-- Everything a step can do. -/
theorem step_cases (P : Pool E A σ τ ρ) (action : Action τ Env) :
    sys.step P action = P ∨
      (∃ id task, action = .spawn id task ∧ P.threads id = none ∧
        sys.step P action = put P P.shared id (sys.start P task)) ∨
      (∃ id env th e next, action = .act id env ∧ P.threads id = some th ∧
        th.epoch = P.epoch ∧ th.prog = .op e next ∧
        sys.step P action = put P (sys.exec env P.shared e).2 id
          (th.advance ⟨e, (sys.exec env P.shared e).1⟩
            (next (sys.exec env P.shared e).1))) ∨
      (action = .restart ∧ sys.step P action =
        { P with shared := sys.reboot P.shared, epoch := P.epoch + 1 }) := by
  cases action with
  | spawn id task =>
      cases hthread : P.threads id with
      | some th => exact Or.inl (by simp [step, hthread])
      | none =>
          exact Or.inr (Or.inl ⟨id, task, rfl, hthread, by
            simp [step, hthread]⟩)
  | act id env =>
      cases hthread : P.threads id with
      | none => exact Or.inl (by simp [step, hthread])
      | some th =>
          by_cases hepoch : th.epoch = P.epoch
          · cases hprog : th.prog with
            | ret value =>
                exact Or.inl (by simp [step, hthread, hprog])
            | op e next =>
                exact Or.inr (Or.inr (Or.inl ⟨id, env, th, e, next, rfl,
                  hthread, hepoch, hprog, by
                    simp [step, hthread, hepoch, hprog]⟩))
          · exact Or.inl (by simp [step, hthread, hepoch])
  | restart => exact Or.inr (Or.inr (Or.inr ⟨rfl, rfl⟩))

/-- Every thread stands where its own trace has taken its program, and none is
from a process yet to come. -/
def WellTraced (P : Pool E A σ τ ρ) : Prop :=
  ∀ id th, P.threads id = some th →
    (sys.body th.task).After th.trace th.prog ∧ th.epoch ≤ P.epoch

@[simp] theorem put_same (P : Pool E A σ τ ρ) (s : σ) (id : Nat) (th : Thread E A τ ρ) :
    (put P s id th).threads id = some th := by
  simp [put]

theorem put_other {P : Pool E A σ τ ρ} {s : σ} {id other : Nat} {th : Thread E A τ ρ}
    (hne : other ≠ id) : (put P s id th).threads other = P.threads other := by
  simp [put, Function.update_of_ne hne]

theorem put_threads {P : Pool E A σ τ ρ} {s : σ} {id other : Nat}
    {th found : Thread E A τ ρ}
    (hfound : (put P s id th).threads other = some found) :
    (other = id ∧ found = th) ∨ (other ≠ id ∧ P.threads other = some found) := by
  by_cases heq : other = id
  · subst heq
    left
    simpa [eq_comm] using hfound
  · right
    exact ⟨heq, put_other heq ▸ hfound⟩

theorem wellTraced_initial (s : σ) :
    sys.WellTraced (Pool.initial s : Pool E A σ τ ρ) := by
  intro id th hth
  simp [Pool.initial] at hth

theorem wellTraced_step {P : Pool E A σ τ ρ} (hP : sys.WellTraced P)
    (action : Action τ Env) : sys.WellTraced (sys.step P action) := by
  rcases sys.step_cases P action with h | ⟨id, task, -, -, h⟩ |
    ⟨id, env, th, e, next, -, hth, hepoch, hprog, h⟩ | ⟨-, h⟩
  · rwa [h]
  · rw [h]
    intro other found hfound
    rcases put_threads hfound with ⟨-, rfl⟩ | ⟨-, hold⟩
    · exact ⟨Program.after_nil.mpr rfl, Nat.le_refl _⟩
    · exact hP other found hold
  · rw [h]
    intro other found hfound
    rcases put_threads hfound with ⟨-, rfl⟩ | ⟨-, hold⟩
    · have hafter := (hP id th hth).1
      rw [hprog] at hafter
      exact ⟨Program.after_concat hafter _, Nat.le_of_eq hepoch⟩
    · exact hP other found hold
  · rw [h]
    intro other found hfound
    obtain ⟨hafter, hle⟩ := hP other found hfound
    exact ⟨hafter, Nat.le_succ_of_le hle⟩

theorem wellTraced_run (s : σ) (actions : List (Action τ Env)) :
    sys.WellTraced (sys.run (Pool.initial s) actions) :=
  sys.run_invariant sys.WellTraced (fun _ action h => sys.wellTraced_step h action)
    actions (sys.wellTraced_initial s)

/-- What a step has a thread do, if it has one act. -/
def performed (P : Pool E A σ τ ρ) : Action τ Env → Option (Nat × Event A)
  | .act id env =>
      match P.threads id with
      | none => none
      | some th =>
          if th.epoch = P.epoch then
            match th.prog with
            | .ret _ => none
            | .op e _ => some (id, ⟨e, (sys.exec env P.shared e).1⟩)
          else none
  | _ => none

theorem performed_act {P : Pool E A σ τ ρ} {id : Nat} {env : Env}
    {th : Thread E A τ ρ} {e : E} {next : A e → Program E A ρ}
    (hth : P.threads id = some th) (hepoch : th.epoch = P.epoch)
    (hprog : th.prog = .op e next) :
    sys.performed P (.act id env) = some (id, ⟨e, (sys.exec env P.shared e).1⟩) := by
  simp [performed, hth, hepoch, hprog]

/-- The step that performs an event, and what it makes of the pool. -/
theorem performed_cases {P : Pool E A σ τ ρ} {action : Action τ Env} {id : Nat}
    {event : Event A} (h : sys.performed P action = some (id, event)) :
    ∃ env th e next, action = .act id env ∧ P.threads id = some th ∧
      th.epoch = P.epoch ∧ th.prog = .op e next ∧
      event = ⟨e, (sys.exec env P.shared e).1⟩ ∧
      sys.step P action = put P (sys.exec env P.shared e).2 id
        (th.advance event (next (sys.exec env P.shared e).1)) := by
  cases action with
  | spawn id task => cases h
  | restart => cases h
  | act id' env =>
      cases hth : P.threads id' with
      | none =>
          simp only [performed, hth] at h
          cases h
      | some th =>
          by_cases hepoch : th.epoch = P.epoch
          · cases hprog : th.prog with
            | ret value =>
                simp only [performed, hth, hepoch, hprog, ↓reduceIte] at h
                cases h
            | op e next =>
                simp only [performed, hth, hepoch, hprog, ↓reduceIte] at h
                cases h
                exact ⟨env, th, e, next, rfl, hth, hepoch, hprog, rfl, by
                  simp [step, hth, hepoch, hprog]⟩
          · simp only [performed, hth, hepoch, ↓reduceIte] at h
            cases h

/-- The step of the run in which an event of a trace was performed. -/
theorem exists_performed {s : σ} {actions : List (Action τ Env)} {id : Nat}
    {th : Thread E A τ ρ} {event : Event A}
    (hth : (sys.run (Pool.initial s) actions).threads id = some th)
    (hevent : event ∈ th.trace) :
    ∃ past action future, actions = past ++ action :: future ∧
      sys.performed (sys.run (Pool.initial s) past) action = some (id, event) := by
  induction actions using List.reverseRecOn generalizing th with
  | nil => cases hth
  | append_singleton actions action ih =>
      have hearlier : ∀ {found : Thread E A τ ρ},
          (sys.run (Pool.initial s) actions).threads id = some found →
          event ∈ found.trace → ∃ past action' future,
            actions ++ [action] = past ++ action' :: future ∧
            sys.performed (sys.run (Pool.initial s) past) action' = some (id, event) := by
        intro found hfound hmem
        obtain ⟨past, action', future, rfl, hperformed⟩ := ih hfound hmem
        exact ⟨past, action', future ++ [action], by simp, hperformed⟩
      rw [sys.run_append] at hth
      change (sys.step (sys.run (Pool.initial s) actions) action).threads id = some th at hth
      rcases sys.step_cases (sys.run (Pool.initial s) actions) action with h |
        ⟨id', task, -, -, h⟩ | ⟨id', env, found, e, next, rfl, hfound, hepoch, hprog, h⟩ |
        ⟨-, h⟩
      · rw [h] at hth
        exact hearlier hth hevent
      · rw [h] at hth
        rcases put_threads hth with ⟨-, rfl⟩ | ⟨-, hold⟩
        · cases hevent
        · exact hearlier hold hevent
      · rw [h] at hth
        rcases put_threads hth with ⟨rfl, rfl⟩ | ⟨-, hold⟩
        · rcases List.mem_append.mp hevent with hmem | hmem
          · exact hearlier hfound hmem
          · rw [List.mem_singleton.mp hmem]
            exact ⟨actions, _, [], rfl, sys.performed_act hfound hepoch hprog⟩
        · exact hearlier hold hevent
      · rw [h] at hth
        exact hearlier hth hevent

/-- Traces only grow. -/
theorem mem_trace_run {P : Pool E A σ τ ρ} {id : Nat} {event : Event A}
    (h : ∃ th, P.threads id = some th ∧ event ∈ th.trace) (actions : List (Action τ Env)) :
    ∃ th, (sys.run P actions).threads id = some th ∧ event ∈ th.trace := by
  refine sys.run_invariant (fun P => ∃ th, P.threads id = some th ∧ event ∈ th.trace)
    (fun P action hP => ?_) actions h
  obtain ⟨th, hth, hmem⟩ := hP
  rcases sys.step_cases P action with hstep | ⟨id', task, -, hnone, hstep⟩ |
    ⟨id', env, found, e, next, -, hfound, -, -, hstep⟩ | ⟨-, hstep⟩
  · rw [hstep]
    exact ⟨th, hth, hmem⟩
  · rw [hstep]
    by_cases hid : id = id'
    · subst hid
      cases hth.symm.trans hnone
    · exact ⟨th, (put_other hid).trans hth, hmem⟩
  · rw [hstep]
    by_cases hid : id = id'
    · subst hid
      cases hth.symm.trans hfound
      exact ⟨_, put_same _ _ _ _, List.mem_append_left _ hmem⟩
    · exact ⟨th, (put_other hid).trans hth, hmem⟩
  · rw [hstep]
    exact ⟨th, hth, hmem⟩

/-- What a step performed stays in the trace of its thread. -/
theorem performed_mem_run {P : Pool E A σ τ ρ} {action : Action τ Env} {id : Nat}
    {event : Event A} (h : sys.performed P action = some (id, event))
    (actions : List (Action τ Env)) :
    ∃ th, (sys.run (sys.step P action) actions).threads id = some th ∧
      event ∈ th.trace := by
  apply sys.mem_trace_run
  obtain ⟨env, th, e, next, -, -, -, -, -, hstep⟩ := sys.performed_cases h
  rw [hstep]
  exact ⟨_, put_same _ _ _ _, by simp [Thread.advance]⟩

/-- Every event of every trace was performed by a step, so a property of what the
steps perform is one of all events. -/
theorem guarded_events {ok : Pool E A σ τ ρ → Action τ Env → Prop}
    {Q : Event A → Prop}
    (hok : ∀ P action id event, ok P action →
      sys.performed P action = some (id, event) → Q event)
    {s : σ} {actions : List (Action τ Env)}
    (hguarded : sys.Guarded ok (Pool.initial s) actions) {id : Nat}
    {th : Thread E A τ ρ}
    (hth : (sys.run (Pool.initial s) actions).threads id = some th) :
    ∀ event ∈ th.trace, Q event := by
  intro event hevent
  obtain ⟨past, action, future, rfl, hperformed⟩ := sys.exists_performed hth hevent
  have hlater := (sys.guarded_append.mp hguarded).2
  exact hok _ action id event hlater.1 hperformed

/-- Every thread of an earlier process is as it was when that process stopped, so
what a restart asks of the threads it stops holds of them. -/
theorem guarded_stopped {ok : Pool E A σ τ ρ → Action τ Env → Prop}
    {Q : Thread E A τ ρ → Prop}
    (hok : ∀ P, ok P .restart → ∀ id th, P.threads id = some th →
      th.epoch = P.epoch → Q th)
    {s : σ} {actions : List (Action τ Env)}
    (hguarded : sys.Guarded ok (Pool.initial s) actions) {id : Nat}
    {th : Thread E A τ ρ}
    (hth : (sys.run (Pool.initial s) actions).threads id = some th)
    (hstopped : th.epoch < (sys.run (Pool.initial s) actions).epoch) : Q th := by
  have hinv := sys.guarded_invariant
    (fun P => (∀ id th, P.threads id = some th → th.epoch < P.epoch → Q th) ∧
      sys.WellTraced P) (fun P action hP haction => ?_)
    ⟨fun id th hth => (by cases hth), sys.wellTraced_initial s⟩ hguarded
  · exact hinv.1 id th hth hstopped
  · obtain ⟨hstopped, htraced⟩ := hP
    refine ⟨?_, sys.wellTraced_step htraced action⟩
    rcases sys.step_cases P action with h | ⟨id, task, -, -, h⟩ |
      ⟨id, env, th, e, next, -, -, hepoch, -, h⟩ | ⟨rfl, h⟩
    · rwa [h]
    · rw [h]
      intro other found hfound hlt
      rcases put_threads hfound with ⟨-, rfl⟩ | ⟨-, hold⟩
      · exact absurd hlt (Nat.lt_irrefl _)
      · exact hstopped other found hold hlt
    · rw [h]
      intro other found hfound hlt
      rcases put_threads hfound with ⟨-, rfl⟩ | ⟨-, hold⟩
      · exact absurd hepoch (Nat.ne_of_lt hlt)
      · exact hstopped other found hold hlt
    · rw [h]
      intro other found hfound hlt
      by_cases hlive : found.epoch = P.epoch
      · exact hok P haction other found hfound hlive
      · have hle := (htraced other found hfound).2
        exact hstopped other found hfound (Nat.lt_of_le_of_ne hle hlive)

theorem guarded_of_forall {ok : Action τ Env → Prop} {P : Pool E A σ τ ρ}
    {actions : List (Action τ Env)} (h : ∀ action ∈ actions, ok action) :
    sys.Guarded (fun _ => ok) P actions := by
  induction actions generalizing P with
  | nil => trivial
  | cons action actions ih =>
      exact ⟨h action List.mem_cons_self,
        ih fun action haction => h action (List.mem_cons_of_mem _ haction)⟩

section Alone

/-- Letting one thread act, with these choices. -/
def acts (id : Nat) (envs : List Env) : List (Action τ Env) :=
  envs.map (.act id)

/-- Starting a task and letting it act alone. -/
def solo (id : Nat) (task : τ) (envs : List Env) : List (Action τ Env) :=
  .spawn id task :: acts id envs

theorem mem_solo {id other : Nat} {task : τ} {env : Env} {envs : List Env} :
    (.act other env : Action τ Env) ∈ solo id task envs ↔ other = id ∧ env ∈ envs := by
  simp only [solo, acts, List.mem_cons, List.mem_map]
  constructor
  · rintro (h | ⟨found, hmem, h⟩)
    · cases h
    · cases h
      exact ⟨rfl, hmem⟩
  · rintro ⟨rfl, hmem⟩
    exact Or.inr ⟨env, hmem, rfl⟩

theorem forall_mem_solo {ok : Action τ Env → Prop} {id : Nat} {task : τ} {envs : List Env} :
    (∀ action ∈ solo id task envs, ok action) ↔
      ok (.spawn id task) ∧ ∀ env ∈ envs, ok (.act id env) := by
  simp [solo, acts]

theorem put_put (P : Pool E A σ τ ρ) (s s' : σ) (id : Nat) (th th' : Thread E A τ ρ) :
    put (put P s id th) s' id th' = put P s' id th' := by
  simp [put]

/-- A thread that acts alone does what its program does alone. -/
theorem run_acts {P : Pool E A σ τ ρ} {id : Nat} {th : Thread E A τ ρ} {s : σ}
    {envs : List Env} {trace : List (Event A)} {q : Program E A ρ}
    (hth : P.threads id = some th) (hepoch : th.epoch = P.epoch)
    (h : Program.Does sys.exec th.prog P.shared envs trace q s) :
    sys.run P (acts id envs) = put P s id ⟨th.task, th.epoch, q, th.trace ++ trace⟩ := by
  obtain ⟨task, epoch, prog, before⟩ := th
  change Program.Does sys.exec prog P.shared envs trace q s at h
  generalize hshared : P.shared = s₀ at h
  induction h generalizing P before with
  | done p s =>
      subst hshared
      simp only [acts, List.map_nil, run_nil, put, List.append_nil]
      rw [Function.update_eq_self_iff.mpr hth.symm]
  | @act e next s₀ s env envs trace q h ih =>
      subst hshared
      have hstep : sys.step P (.act id env) = put P (sys.exec env P.shared e).2 id
          ⟨task, epoch, next (sys.exec env P.shared e).1,
            before ++ [⟨e, (sys.exec env P.shared e).1⟩]⟩ := by
        change epoch = P.epoch at hepoch
        simp [step, hth, hepoch, Thread.advance]
      change sys.run (sys.step P (.act id env)) (acts id envs) = _
      rw [hstep, ih _ (put_same ..) hepoch rfl, put_put]
      simp

/-- A task started alone is as far as its program gets alone. -/
theorem run_solo {P : Pool E A σ τ ρ} {id : Nat} {task : τ} {s : σ} {envs : List Env}
    {trace : List (Event A)} {q : Program E A ρ} (hnone : P.threads id = none)
    (h : Program.Does sys.exec (sys.body task) P.shared envs trace q s) :
    sys.run P (solo id task envs) = put P s id ⟨task, P.epoch, q, trace⟩ := by
  have hspawn : sys.step P (.spawn id task) = put P P.shared id (sys.start P task) := by
    simp [step, hnone]
  have hacts := sys.run_acts (P := put P P.shared id (sys.start P task)) (put_same ..) rfl h
  change sys.run (sys.step P (.spawn id task)) (acts id envs) = _
  rw [hspawn, hacts, put_put]
  rfl

end Alone

section Hiding

/-- The decision is not about a hidden thread. -/
def shown (hidden : Nat → Bool) : Action τ Env → Bool
  | .spawn id _ => !hidden id
  | .act id _ => !hidden id
  | .restart => true

/-- The pools differ in their hidden threads, and in their shared states by what
`R` allows. -/
structure Agree (hidden : Nat → Bool) (R : σ → σ → Prop) (P Q : Pool E A σ τ ρ) :
    Prop where
  epoch : P.epoch = Q.epoch
  shared : R P.shared Q.shared
  threads : ∀ id, hidden id = false → P.threads id = Q.threads id

variable {hidden : Nat → Bool} {R : σ → σ → Prop}

/-- What a hidden thread does to the shared state in `P` is within `R`. -/
def HidesActs (hidden : Nat → Bool) (R : σ → σ → Prop) (P : Pool E A σ τ ρ) : Prop :=
  ∀ id th e next env s, hidden id = true → P.threads id = some th →
    th.prog = .op e next → R P.shared s → R (sys.exec env P.shared e).2 s

/-- What any other thread does in `P` it does alike in all states within `R`. -/
def ShowsActs (hidden : Nat → Bool) (R : σ → σ → Prop) (P : Pool E A σ τ ρ) : Prop :=
  ∀ id th e next env s, hidden id = false → P.threads id = some th →
    th.prog = .op e next → R P.shared s →
    (sys.exec env P.shared e).1 = (sys.exec env s e).1 ∧
      R (sys.exec env P.shared e).2 (sys.exec env s e).2

theorem agree_put {P Q : Pool E A σ τ ρ} (h : Agree hidden R P Q) {s s' : σ}
    (hs : R s s') (id : Nat) (th : Thread E A τ ρ) :
    Agree hidden R (put P s id th) (put Q s' id th) := by
  refine ⟨h.epoch, hs, ?_⟩
  intro other hother
  by_cases heq : other = id
  · subst heq
    simp
  · rw [put_other heq, put_other heq]
    exact h.threads other hother

theorem agree_hidden {P Q : Pool E A σ τ ρ} (h : Agree hidden R P Q) {s : σ}
    (hs : R s Q.shared) {id : Nat} (hid : hidden id = true) (th : Thread E A τ ρ) :
    Agree hidden R (put P s id th) Q := by
  refine ⟨h.epoch, hs, ?_⟩
  intro other hother
  have hne : other ≠ id := by
    rintro rfl
    rw [hid] at hother
    cases hother
  rw [put_other hne]
  exact h.threads other hother

theorem agree_step_hidden {P Q : Pool E A σ τ ρ} (h : Agree hidden R P Q)
    (hhides : sys.HidesActs hidden R P) {action : Action τ Env}
    (hshown : shown hidden action = false) : Agree hidden R (sys.step P action) Q := by
  rcases sys.step_cases P action with hstep | ⟨id, task, rfl, -, hstep⟩ |
    ⟨id, env, th, e, next, rfl, hth, -, hprog, hstep⟩ | ⟨rfl, -⟩
  · rwa [hstep]
  · rw [hstep]
    exact agree_hidden h h.shared (by simpa [shown] using hshown) _
  · rw [hstep]
    have hid : hidden id = true := by simpa [shown] using hshown
    exact agree_hidden h (hhides id th e next env _ hid hth hprog h.shared) hid _
  · cases hshown

theorem agree_step_shown {P Q : Pool E A σ τ ρ} (h : Agree hidden R P Q)
    (hshows : sys.ShowsActs hidden R P)
    (hreboot : ∀ s s', R s s' → R (sys.reboot s) (sys.reboot s'))
    {action : Action τ Env} (hshown : shown hidden action = true) :
    Agree hidden R (sys.step P action) (sys.step Q action) := by
  cases action with
  | spawn id task =>
      have hid : hidden id = false := by simpa [shown] using hshown
      have hthreads := h.threads id hid
      cases hth : P.threads id with
      | some th =>
          rw [hth] at hthreads
          simpa [step, hth, ← hthreads] using h
      | none =>
          rw [hth] at hthreads
          simp only [step, hth, ← hthreads, start, h.epoch]
          exact agree_put h h.shared id _
  | act id env =>
      have hid : hidden id = false := by simpa [shown] using hshown
      have hthreads := h.threads id hid
      cases hth : P.threads id with
      | none =>
          rw [hth] at hthreads
          simpa [step, hth, ← hthreads] using h
      | some th =>
          rw [hth] at hthreads
          by_cases hepoch : th.epoch = P.epoch
          · have hepoch' := hepoch.trans h.epoch
            cases hprog : th.prog with
            | ret value => simpa [step, hth, ← hthreads, hprog] using h
            | op e next =>
                obtain ⟨hanswer, hR⟩ := hshows id th e next env _ hid hth hprog h.shared
                have hP : sys.step P (.act id env) = put P (sys.exec env P.shared e).2 id
                    (th.advance ⟨e, (sys.exec env P.shared e).1⟩
                      (next (sys.exec env P.shared e).1)) := by
                  simp [step, hth, hepoch, hprog]
                have hQ : sys.step Q (.act id env) = put Q (sys.exec env Q.shared e).2 id
                    (th.advance ⟨e, (sys.exec env P.shared e).1⟩
                      (next (sys.exec env P.shared e).1)) := by
                  simp [step, ← hthreads, hepoch', hprog, hanswer]
                rw [hP, hQ]
                exact agree_put h hR id _
          · have hepoch' : ¬ th.epoch = Q.epoch := h.epoch ▸ hepoch
            simpa [step, hth, ← hthreads, hepoch, hepoch'] using h
  | restart =>
      refine ⟨?_, hreboot _ _ h.shared, h.threads⟩
      simp [step, h.epoch]

/-- The hiding rule: a run agrees with what it is without its hidden threads. -/
theorem agree_run {ok : Pool E A σ τ ρ → Action τ Env → Prop}
    (Inv : Pool E A σ τ ρ → Prop)
    (hstep : ∀ P action, Inv P → ok P action → Inv (sys.step P action))
    (hhides : ∀ P, Inv P → sys.HidesActs hidden R P)
    (hshows : ∀ P, Inv P → sys.ShowsActs hidden R P)
    (hreboot : ∀ s s', R s s' → R (sys.reboot s) (sys.reboot s'))
    {P Q : Pool E A σ τ ρ} {actions : List (Action τ Env)} (hinit : Inv P)
    (hguarded : sys.Guarded ok P actions) (h : Agree hidden R P Q) :
    Agree hidden R (sys.run P actions) (sys.run Q (actions.filter (shown hidden))) := by
  induction actions generalizing P Q with
  | nil => exact h
  | cons action actions ih =>
      have hinv := hstep P action hinit hguarded.1
      cases hshown : shown hidden action with
      | false =>
          rw [List.filter_cons_of_neg (by simp [hshown])]
          exact ih hinv hguarded.2 (sys.agree_step_hidden h (hhides P hinit) hshown)
      | true =>
          rw [List.filter_cons_of_pos hshown]
          exact ih hinv hguarded.2
            (sys.agree_step_shown h (hshows P hinit) hreboot hshown)

end Hiding

end System

end RlnGifter
