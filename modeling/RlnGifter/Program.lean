/-
Programs that talk to a shared world one operation at a time.  A program is the
tree of what it does next for every answer the world may give, so a run of it
can be cut at any operation and other programs may act in between.
-/
import Mathlib.Logic.Function.Basic

namespace RlnGifter

variable {E : Type} {A : E → Type} {α β : Type}

/-- A program over the operations `E`: it has returned, or it performs one
operation and goes on with the answer. -/
inductive Program (E : Type) (A : E → Type) (α : Type) : Type where
  | ret (value : α) : Program E A α
  | op (e : E) (next : A e → Program E A α) : Program E A α

/-- One operation together with the answer it got. -/
abbrev Event (A : E → Type) : Type := (e : E) × A e

namespace Program

/-- Run `p`, then what `f` makes of its result. -/
protected def bind (p : Program E A α) (f : α → Program E A β) :
    Program E A β :=
  match p with
  | .ret value => f value
  | .op e next => .op e fun answer => (next answer).bind f

instance : Monad (Program E A) where
  pure := .ret
  bind := Program.bind

/-- The program that performs one operation and returns its answer. -/
def perform (e : E) : Program E A (A e) :=
  .op e .ret

/-- The operation a program is about to perform. -/
def pending : Program E A α → Option E
  | .ret _ => none
  | .op e _ => some e

@[simp] theorem pending_ret (value : α) :
    (Program.ret value : Program E A α).pending = none := rfl

@[simp] theorem pending_op (e : E) (next : A e → Program E A α) :
    (Program.op e next).pending = some e := rfl

theorem pending_eq_some {p : Program E A α} {e : E} :
    p.pending = some e ↔ ∃ next, p = .op e next := by
  cases p with
  | ret value => simp
  | op e' next =>
      simp only [pending_op, Option.some.injEq]
      constructor
      · rintro rfl
        exact ⟨next, rfl⟩
      · rintro ⟨next', heq⟩
        exact (Program.op.inj heq).1

@[simp] theorem pure_eq_ret (value : α) :
    (pure value : Program E A α) = .ret value := rfl

@[simp] theorem ret_bind (value : α) (f : α → Program E A β) :
    (Program.ret value >>= f) = f value := rfl

@[simp] theorem op_bind (e : E) (next : A e → Program E A α)
    (f : α → Program E A β) :
    (Program.op e next >>= f) = .op e fun answer => next answer >>= f := rfl

@[simp] theorem perform_bind (e : E) (f : A e → Program E A β) :
    (perform e >>= f) = .op e f := rfl

theorem bind_bind {γ : Type} (p : Program E A α) (f : α → Program E A β)
    (g : β → Program E A γ) : p >>= f >>= g = p >>= fun value => f value >>= g := by
  induction p with
  | ret value => rfl
  | op e next ih => exact congrArg (Program.op e) (funext ih)

/-- `p.After trace q`: performing exactly the events of `trace` takes `p` to
`q`. -/
def After : Program E A α → List (Event A) → Program E A α → Prop
  | p, [], q => q = p
  | .ret _, _ :: _, _ => False
  | .op e next, event :: trace, q =>
      ∃ answer : A e, event = ⟨e, answer⟩ ∧ (next answer).After trace q

@[simp] theorem after_nil {p q : Program E A α} : p.After [] q ↔ q = p := by
  cases p <;> rfl

@[simp] theorem ret_after_cons {value : α} {event : Event A}
    {trace : List (Event A)} {q : Program E A α} :
    ¬ (Program.ret value).After (event :: trace) q := id

@[simp] theorem op_after_cons {e : E} {next : A e → Program E A α}
    {event : Event A} {trace : List (Event A)} {q : Program E A α} :
    (Program.op e next).After (event :: trace) q ↔
      ∃ answer : A e, event = ⟨e, answer⟩ ∧ (next answer).After trace q :=
  Iff.rfl

theorem ret_after {value : α} {trace : List (Event A)} {q : Program E A α} :
    (Program.ret value).After trace q ↔ trace = [] ∧ q = .ret value := by
  cases trace <;> simp

/-- What an operation has done so far: nothing yet, or one answered event and
the rest of the run. -/
theorem op_after {e : E} {next : A e → Program E A α} {trace : List (Event A)}
    {q : Program E A α} :
    (Program.op e next).After trace q ↔
      (trace = [] ∧ q = .op e next) ∨
        ∃ (answer : A e) (rest : List (Event A)),
          trace = ⟨e, answer⟩ :: rest ∧ (next answer).After rest q := by
  cases trace with
  | nil => simp
  | cons event rest =>
      simp only [op_after_cons, List.cons_ne_nil, false_and, false_or,
        List.cons.injEq]
      constructor
      · rintro ⟨answer, hevent, hafter⟩
        exact ⟨answer, rest, ⟨hevent, rfl⟩, hafter⟩
      · rintro ⟨answer, rest', ⟨hevent, rfl⟩, hafter⟩
        exact ⟨answer, hevent, hafter⟩

theorem op_after_ret {e : E} {next : A e → Program E A α} {trace : List (Event A)} {value : α}
    (h : (Program.op e next).After trace (.ret value)) :
    ∃ answer rest, trace = ⟨e, answer⟩ :: rest ∧ (next answer).After rest (.ret value) := by
  rcases op_after.mp h with ⟨-, heq⟩ | hstep
  · cases heq
  · exact hstep

/-- A program of one operation. -/
theorem op_ret_after_ret {e : E} {g : A e → α} {trace : List (Event A)} {value : α}
    (h : (Program.op e fun answer => .ret (g answer)).After trace (.ret value)) :
    ∃ answer, trace = [⟨e, answer⟩] ∧ value = g answer := by
  obtain ⟨answer, rest, rfl, hrest⟩ := op_after_ret h
  obtain ⟨rfl, heq⟩ := ret_after.mp hrest
  exact ⟨answer, rfl, Program.ret.inj heq⟩

/-- Runs compose: what happens after `first` and then after `second`. -/
theorem after_append {p q r : Program E A α} {first second : List (Event A)}
    (hfirst : p.After first q) (hsecond : q.After second r) :
    p.After (first ++ second) r := by
  induction first generalizing p with
  | nil =>
      rw [after_nil] at hfirst
      simpa [← hfirst] using hsecond
  | cons event first ih =>
      cases p with
      | ret value => exact absurd hfirst ret_after_cons
      | op e next =>
          obtain ⟨answer, hevent, hafter⟩ := op_after_cons.mp hfirst
          exact op_after_cons.mpr ⟨answer, hevent, ih hafter⟩

/-- One more operation at the end of a run. -/
theorem after_concat {p : Program E A α} {trace : List (Event A)} {e : E}
    {next : A e → Program E A α} (hafter : p.After trace (.op e next))
    (answer : A e) : p.After (trace ++ [⟨e, answer⟩]) (next answer) :=
  after_append hafter (by simp)

/-- Where every operation has answers, a program can be run to its end. -/
theorem exists_after_ret [∀ e, Nonempty (A e)] (p : Program E A α) :
    ∃ trace value, p.After trace (.ret value) := by
  induction p with
  | ret value => exact ⟨[], value, after_nil.mpr rfl⟩
  | op e next ih =>
      obtain ⟨answer⟩ := (inferInstance : Nonempty (A e))
      obtain ⟨trace, value, h⟩ := ih answer
      exact ⟨⟨e, answer⟩ :: trace, value, op_after_cons.mpr ⟨answer, rfl, h⟩⟩

/-- Sequencing, run forwards: a whole run of `p` followed by a run of the rest. -/
theorem after_bind {p : Program E A α} {f : α → Program E A β} {value : α}
    {first second : List (Event A)} {q : Program E A β}
    (hfirst : p.After first (.ret value)) (hsecond : (f value).After second q) :
    (p >>= f).After (first ++ second) q := by
  induction first generalizing p with
  | nil =>
      rw [after_nil] at hfirst
      simpa [← hfirst] using hsecond
  | cons event first ih =>
      cases p with
      | ret value => exact absurd hfirst ret_after_cons
      | op e next =>
          obtain ⟨answer, hevent, hafter⟩ := op_after_cons.mp hfirst
          exact op_after_cons.mpr ⟨answer, hevent, ih hafter⟩

/-- Sequencing, read backwards: either `p` is still running, or it has
returned and the rest of the events are those of its continuation. -/
theorem bind_after {p : Program E A α} {f : α → Program E A β}
    {trace : List (Event A)} {q : Program E A β}
    (hafter : (p >>= f).After trace q) :
    (∃ e next, p.After trace (.op e next) ∧
        q = .op e fun answer => next answer >>= f) ∨
      ∃ first second value, trace = first ++ second ∧
        p.After first (.ret value) ∧ (f value).After second q := by
  induction trace generalizing p with
  | nil =>
      cases p with
      | ret value => exact Or.inr ⟨[], [], value, rfl, rfl, hafter⟩
      | op e next => exact Or.inl ⟨e, next, rfl, after_nil.mp hafter⟩
  | cons event trace ih =>
      cases p with
      | ret value =>
          exact Or.inr ⟨[], event :: trace, value, rfl, rfl, hafter⟩
      | op e next =>
          obtain ⟨answer, rfl, hrest⟩ := op_after_cons.mp hafter
          rcases ih hrest with ⟨e', next', hp, hq⟩ | ⟨first, second, value, rfl,
            hp, hf⟩
          · exact Or.inl ⟨e', next', op_after_cons.mpr ⟨answer, rfl, hp⟩, hq⟩
          · exact Or.inr ⟨⟨e, answer⟩ :: first, second, value, rfl,
              op_after_cons.mpr ⟨answer, rfl, hp⟩, hf⟩

/-- A sequence has returned only after its first part has. -/
theorem bind_after_ret {p : Program E A α} {f : α → Program E A β}
    {trace : List (Event A)} {value : β} (h : (p >>= f).After trace (.ret value)) :
    ∃ first second mid, trace = first ++ second ∧ p.After first (.ret mid) ∧
      (f mid).After second (.ret value) := by
  rcases bind_after h with ⟨e, next, -, heq⟩ | hsplit
  · cases heq
  · exact hsplit

/-- A program that has returned does nothing more. -/
theorem after_ret_append {p q : Program E A α} {value : α}
    {first second : List (Event A)} (hfirst : p.After first (.ret value))
    (h : p.After (first ++ second) q) : second = [] ∧ q = .ret value := by
  induction first generalizing p with
  | nil =>
      rw [after_nil] at hfirst
      rw [← hfirst] at h
      exact ret_after.mp h
  | cons event first ih =>
      cases p with
      | ret value => exact absurd hfirst ret_after_cons
      | op e next =>
          obtain ⟨answer, rfl, hrest⟩ := op_after_cons.mp hfirst
          obtain ⟨answer', heq, hrest'⟩ := op_after_cons.mp h
          cases heq
          exact ih hrest hrest'

/-- The events of a whole run of `p` are the only ones on the way to a return. -/
theorem after_ret_unique {p : Program E A α} {v w : α}
    {first second rest rest' : List (Event A)} (hv : p.After first (.ret v))
    (hw : p.After second (.ret w)) (heq : first ++ rest = second ++ rest') :
    first = second ∧ v = w ∧ rest = rest' := by
  rcases List.append_eq_append_iff.mp heq with ⟨more, rfl, rfl⟩ | ⟨more, rfl, rfl⟩
  · obtain ⟨rfl, hret⟩ := after_ret_append hv hw
    exact ⟨by simp, (Program.ret.inj hret).symm, by simp⟩
  · obtain ⟨rfl, hret⟩ := after_ret_append hw hv
    exact ⟨by simp, Program.ret.inj hret, by simp⟩

/-- A list is cut in one way at its first element without `ok`. -/
theorem cut_unique {ok : α → Prop} {x y : α} {left left' right right' : List α}
    (hleft : ∀ a ∈ left, ok a) (hleft' : ∀ a ∈ left', ok a) (hx : ¬ ok x)
    (hy : ¬ ok y) (h : left ++ x :: right = left' ++ y :: right') :
    left = left' ∧ x = y ∧ right = right' := by
  induction left generalizing left' with
  | nil =>
      cases left' with
      | nil => exact ⟨rfl, List.cons.inj h⟩
      | cons a left' =>
          obtain ⟨rfl, -⟩ := List.cons.inj h
          exact absurd (hleft' x List.mem_cons_self) hx
  | cons a left ih =>
      cases left' with
      | nil =>
          obtain ⟨rfl, -⟩ := List.cons.inj h
          exact absurd (hleft a List.mem_cons_self) hy
      | cons b left' =>
          obtain ⟨rfl, htail⟩ := List.cons.inj h
          obtain ⟨rfl, hrest⟩ := ih
            (fun c hc => hleft c (List.mem_cons_of_mem a hc))
            (fun c hc => hleft' c (List.mem_cons_of_mem a hc)) htail
          exact ⟨rfl, hrest⟩

/-- A list is cut in one way at its only element without `ok`. -/
theorem cut_sole {ok : α → Prop} {x y : α} {before left after right : List α}
    (hleft : ∀ a ∈ left, ok a) (hright : ∀ a ∈ right, ok a) (hx : ¬ ok x)
    (h : before ++ x :: after = left ++ y :: right) :
    before = left ∧ x = y ∧ after = right := by
  have hmem : ∀ a ∈ before ++ x :: after, ok a ∨ a = y := by
    intro a ha
    rw [h, List.mem_append, List.mem_cons] at ha
    rcases ha with ha | rfl | ha
    · exact Or.inl (hleft a ha)
    · exact Or.inr rfl
    · exact Or.inl (hright a ha)
  have hxy : x = y := (hmem x (by simp)).resolve_left hx
  subst hxy
  rcases List.append_eq_append_iff.mp h with ⟨more, rfl, hmore⟩ | ⟨more, rfl, hmore⟩
  · cases more with
    | nil => exact ⟨by simp, rfl, (List.cons.inj hmore).2⟩
    | cons a more =>
        obtain ⟨rfl, -⟩ := List.cons.inj hmore
        exact absurd (hleft x (by simp)) hx
  · cases more with
    | nil => exact ⟨by simp, rfl, (List.cons.inj hmore).2.symm⟩
    | cons a more =>
        obtain ⟨rfl, rfl⟩ := List.cons.inj hmore
        exact absurd (hright x (by simp)) hx

section Does

variable {σ Env : Type} {exec : Env → σ → (e : E) → A e × σ}

/-- Run alone from `s`, with the choices `envs`, the program performs `trace`, which
leaves `q` of it and `s'` of the state. -/
inductive Does (exec : Env → σ → (e : E) → A e × σ) : Program E A α → σ → List Env →
    List (Event A) → Program E A α → σ → Prop where
  | done (p : Program E A α) (s : σ) : Does exec p s [] [] p s
  | act {e : E} {next : A e → Program E A α} {s s' : σ} {env : Env} {envs : List Env}
      {trace : List (Event A)} {q : Program E A α}
      (h : Does exec (next (exec env s e).1) (exec env s e).2 envs trace q s') :
      Does exec (.op e next) s (env :: envs) (⟨e, (exec env s e).1⟩ :: trace) q s'

theorem Does.step {e : E} {next : A e → Program E A α} {s s' s'' : σ} {env : Env}
    {envs : List Env} {answer : A e} {trace : List (Event A)} {q : Program E A α}
    (hexec : exec env s e = (answer, s')) (h : Does exec (next answer) s' envs trace q s'') :
    Does exec (.op e next) s (env :: envs) (⟨e, answer⟩ :: trace) q s'' := by
  obtain ⟨rfl, rfl⟩ := Prod.ext_iff.mp hexec
  exact .act h

theorem Does.trans {p q r : Program E A α} {s s' s'' : σ} {envs envs' : List Env}
    {trace trace' : List (Event A)} (h : Does exec p s envs trace q s')
    (h' : Does exec q s' envs' trace' r s'') :
    Does exec p s (envs ++ envs') (trace ++ trace') r s'' := by
  induction h with
  | done p s => exact h'
  | act _ ih => exact .act (ih h')

/-- A program that has returned goes on with the next. -/
theorem Does.bind {p : Program E A α} {f : α → Program E A β} {s s' s'' : σ}
    {envs envs' : List Env} {trace trace' : List (Event A)} {value : α}
    {q : Program E A β} (hp : Does exec p s envs trace (.ret value) s')
    (hf : Does exec (f value) s' envs' trace' q s'') :
    Does exec (p >>= f) s (envs ++ envs') (trace ++ trace') q s'' := by
  generalize hr : (Program.ret value : Program E A α) = r at hp
  induction hp with
  | done p s =>
      subst hr
      exact hf
  | act _ ih => exact .act (ih hf hr)

/-- The same where only the trace is told. -/
theorem Does.bind_exists {p : Program E A α} {f : α → Program E A β} {s s' s'' : σ}
    {trace trace' : List (Event A)} {value : α} {q : Program E A β}
    (hp : ∃ envs, Does exec p s envs trace (.ret value) s')
    (hf : ∃ envs, Does exec (f value) s' envs trace' q s'') :
    ∃ envs, Does exec (p >>= f) s envs (trace ++ trace') q s'' := by
  obtain ⟨_, hp⟩ := hp
  obtain ⟨_, hf⟩ := hf
  exact ⟨_, hp.bind hf⟩

/-- A program that is cut is cut inside what follows it too. -/
theorem Does.bind_left {p : Program E A α} (f : α → Program E A β) {s s' : σ}
    {envs : List Env} {trace : List (Event A)} {q : Program E A α}
    (hp : Does exec p s envs trace q s') :
    Does exec (p >>= f) s envs trace (q >>= f) s' := by
  induction hp with
  | done p s => exact .done _ _
  | act _ ih => exact .act ih

theorem Does.after {p q : Program E A α} {s s' : σ} {envs : List Env}
    {trace : List (Event A)} (h : Does exec p s envs trace q s') : p.After trace q := by
  induction h with
  | done p s => exact after_nil.mpr rfl
  | act _ ih => exact op_after_cons.mpr ⟨_, rfl, ih⟩

theorem does_ret {value : α} {q : Program E A α} {s s' : σ} {envs : List Env}
    {trace : List (Event A)} (h : Does exec (.ret value) s envs trace q s') :
    envs = [] ∧ trace = [] ∧ q = .ret value ∧ s' = s := by
  cases h
  exact ⟨rfl, rfl, rfl, rfl⟩

/-- A program that performs an operation and comes to its end has performed it. -/
theorem does_op {e : E} {next : A e → Program E A α} {value : α} {s s' : σ}
    {envs : List Env} {trace : List (Event A)}
    (h : Does exec (.op e next) s envs trace (.ret value) s') :
    ∃ env envs' trace', envs = env :: envs' ∧ trace = ⟨e, (exec env s e).1⟩ :: trace' ∧
      Does exec (next (exec env s e).1) (exec env s e).2 envs' trace' (.ret value) s' := by
  cases h with
  | act h => exact ⟨_, _, _, rfl, rfl, h⟩

/-- A whole run of a sequence is a whole run of its first part and one of the
rest. -/
theorem does_bind {p : Program E A α} {f : α → Program E A β} {value : β} {s s'' : σ}
    {envs : List Env} {trace : List (Event A)}
    (h : Does exec (p >>= f) s envs trace (.ret value) s'') :
    ∃ first second head tail mid s', envs = first ++ second ∧ trace = head ++ tail ∧
      Does exec p s first head (.ret mid) s' ∧
      Does exec (f mid) s' second tail (.ret value) s'' := by
  induction p generalizing s envs trace with
  | ret mid => exact ⟨[], envs, [], trace, mid, s, rfl, rfl, .done _ _, h⟩
  | op e next ih =>
      obtain ⟨env, envs', trace', rfl, rfl, hnext⟩ := does_op h
      obtain ⟨first, second, head, tail, mid, s', rfl, rfl, hp, hf⟩ := ih _ hnext
      exact ⟨env :: first, second, _ :: head, tail, mid, s', rfl, rfl, .act hp, hf⟩

/-- A run is one up to any event of its trace, and one from there on. -/
theorem does_append {p q : Program E A α} {s s' : σ} {envs : List Env}
    {first second : List (Event A)} (h : Does exec p s envs (first ++ second) q s') :
    ∃ head tail mid r, envs = head ++ tail ∧ Does exec p s head first mid r ∧
      Does exec mid r tail second q s' := by
  induction first generalizing p s envs with
  | nil => exact ⟨[], envs, p, s, rfl, .done _ _, h⟩
  | cons event first ih =>
      cases h with
      | act h =>
          obtain ⟨head, tail, mid, r, rfl, hfirst, hsecond⟩ := ih h
          exact ⟨_ :: head, tail, mid, r, rfl, .act hfirst, hsecond⟩

theorem does_nil {p q : Program E A α} {s s' : σ} {envs : List Env}
    (h : Does exec p s envs [] q s') : envs = [] ∧ q = p ∧ s' = s := by
  cases h
  exact ⟨rfl, rfl, rfl⟩

/-- A run of one event performed it. -/
theorem does_single {p q : Program E A α} {s s' : σ} {envs : List Env} {e : E} {answer : A e}
    (h : Does exec p s envs [⟨e, answer⟩] q s') :
    ∃ env next, envs = [env] ∧ p = .op e next ∧ exec env s e = (answer, s') ∧
      q = next answer := by
  generalize htrace : [(⟨e, answer⟩ : Event A)] = trace at h
  cases h with
  | done => cases htrace
  | act h =>
      obtain ⟨hevent, rfl⟩ := List.cons.inj htrace
      obtain ⟨rfl, hanswer⟩ := Sigma.mk.inj hevent
      obtain rfl := eq_of_heq hanswer
      obtain ⟨rfl, rfl, rfl⟩ := does_nil h
      exact ⟨_, _, rfl, rfl, rfl, rfl⟩

/-- Run alone from `s`, the program may return `value` and leave `s'`. -/
def Returns (exec : Env → σ → (e : E) → A e × σ) (p : Program E A α) (s : σ) (value : α)
    (s' : σ) : Prop :=
  ∃ envs trace, Does exec p s envs trace (.ret value) s'

theorem returns_ret (value : α) (s : σ) : Returns exec (.ret value) s value s :=
  ⟨[], [], .done _ _⟩

theorem Returns.step {e : E} {next : A e → Program E A α} {value : α} {s s' s'' : σ}
    {env : Env} {answer : A e} (hexec : exec env s e = (answer, s'))
    (h : Returns exec (next answer) s' value s'') :
    Returns exec (.op e next) s value s'' := by
  obtain ⟨envs, trace, h⟩ := h
  exact ⟨_, _, .step hexec h⟩

theorem Returns.bind {p : Program E A α} {f : α → Program E A β} {mid : α} {value : β}
    {s s' s'' : σ} (hp : Returns exec p s mid s') (hf : Returns exec (f mid) s' value s'') :
    Returns exec (p >>= f) s value s'' := by
  obtain ⟨envs, trace, hp⟩ := hp
  obtain ⟨envs', trace', hf⟩ := hf
  exact ⟨_, _, hp.bind hf⟩

end Does

/-- Every operation `p` can ever perform meets `ok`. -/
def Only (ok : E → Prop) : Program E A α → Prop
  | .ret _ => True
  | .op e next => ok e ∧ ∀ answer, (next answer).Only ok

variable {ok : E → Prop}

@[simp] theorem only_ret (value : α) :
    (Program.ret value : Program E A α).Only ok := trivial

@[simp] theorem only_op {e : E} {next : A e → Program E A α} :
    (Program.op e next).Only ok ↔ ok e ∧ ∀ answer, (next answer).Only ok := Iff.rfl

theorem only_perform {e : E} (he : ok e) : (perform e : Program E A (A e)).Only ok :=
  ⟨he, fun _ => trivial⟩

theorem only_bind {p : Program E A α} {f : α → Program E A β} (hp : p.Only ok)
    (hf : ∀ value, (f value).Only ok) : (p >>= f).Only ok := by
  induction p with
  | ret value => exact hf value
  | op e next ih => exact ⟨hp.1, fun answer => ih answer (hp.2 answer)⟩

theorem only_mono {ok' : E → Prop} (himp : ∀ e, ok e → ok' e)
    {p : Program E A α} (hp : p.Only ok) : p.Only ok' := by
  induction p with
  | ret value => trivial
  | op e next ih => exact ⟨himp e hp.1, fun answer => ih answer (hp.2 answer)⟩

/-- A run of such a program performs such operations, and what is left of the
program is such a program. -/
theorem only_after {p q : Program E A α} {trace : List (Event A)}
    (hp : p.Only ok) (hafter : p.After trace q) :
    (∀ event ∈ trace, ok event.1) ∧ q.Only ok := by
  induction trace generalizing p with
  | nil =>
      rw [after_nil] at hafter
      exact ⟨by simp, hafter ▸ hp⟩
  | cons event trace ih =>
      cases p with
      | ret value => exact absurd hafter ret_after_cons
      | op e next =>
          obtain ⟨answer, rfl, hrest⟩ := op_after_cons.mp hafter
          obtain ⟨htrace, hq⟩ := ih (hp.2 answer) hrest
          refine ⟨?_, hq⟩
          intro event hevent
          rcases List.mem_cons.mp hevent with rfl | hevent
          · exact hp.1
          · exact htrace event hevent

/-- A program is such a program as soon as every operation it comes to is. -/
theorem only_of_after {p : Program E A α}
    (h : ∀ trace e next, p.After trace (.op e next) → ok e) : p.Only ok := by
  induction p with
  | ret value => trivial
  | op e next ih =>
      refine ⟨h [] e next (after_nil.mpr rfl), fun answer => ih answer ?_⟩
      intro trace e' next' hafter
      exact h (⟨e, answer⟩ :: trace) e' next' (op_after_cons.mpr ⟨answer, rfl, hafter⟩)

section Relabel

variable {E' : Type} {A' : E' → Type} {f : E → E'}

/-- The program with its operations renamed; the answers are those of the new names. -/
def relabel (f : E → E') : Program E (fun e => A' (f e)) α → Program E' A' α
  | .ret value => .ret value
  | .op e next => .op (f e) fun answer => (next answer).relabel f

/-- An event under its new name. -/
def relabelEvent (f : E → E') (event : Event fun e => A' (f e)) : Event A' :=
  ⟨f event.1, event.2⟩

/-- The renamed program does what the program does, under the new names. -/
theorem relabel_after {p : Program E (fun e => A' (f e)) α} {trace : List (Event A')}
    {q : Program E' A' α} (h : (p.relabel f).After trace q) :
    ∃ trace' q', trace = trace'.map (relabelEvent f) ∧ q = q'.relabel f ∧
      p.After trace' q' := by
  induction trace generalizing p with
  | nil =>
      rw [after_nil] at h
      exact ⟨[], p, rfl, h, after_nil.mpr rfl⟩
  | cons event trace ih =>
      cases p with
      | ret value => exact absurd h ret_after_cons
      | op e next =>
          obtain ⟨answer, rfl, hrest⟩ := op_after_cons.mp h
          obtain ⟨trace', q', rfl, rfl, hafter⟩ := ih hrest
          exact ⟨⟨e, answer⟩ :: trace', q', rfl, rfl, op_after_cons.mpr ⟨answer, rfl, hafter⟩⟩

theorem relabel_after_ret {p : Program E (fun e => A' (f e)) α} {trace : List (Event A')}
    {value : α} (h : (p.relabel f).After trace (.ret value)) :
    ∃ trace', trace = trace'.map (relabelEvent f) ∧ p.After trace' (.ret value) := by
  obtain ⟨trace', q', rfl, hret, hafter⟩ := relabel_after h
  cases q' with
  | ret value' =>
      obtain rfl := Program.ret.inj hret
      exact ⟨trace', rfl, hafter⟩
  | op e next => cases hret

end Relabel

end Program

end RlnGifter
