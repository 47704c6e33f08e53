/-
Methods of an object.  A method performs operations and changes the object's state; it
comes to a value, or to an error that keeps the changes before it, or it stops the
program.  What a method ensures is worked out backwards, one rule for each of its steps.
-/
import RlnGifter.Loops
import RlnGifter.Program

namespace RlnGifter

variable {E : Type} {A : E → Type} {σ ε α β : Type}

/-- A method over the operations `E` of an object in a state `σ`. -/
def Method (E : Type) (A : E → Type) (σ ε α : Type) : Type :=
  σ → Program E A (Ending (Except ε α × σ))

namespace Method

/-- The method on an object in state `s`. -/
def run (m : Method E A σ ε α) (s : σ) : Program E A (Ending (Except ε α × σ)) := m s

/-- A sequence goes on with a value only. -/
def resume (f : α → Method E A σ ε β) :
    Ending (Except ε α × σ) → Program E A (Ending (Except ε β × σ))
  | .returns (.ok value, s) => (f value).run s
  | .returns (.error e, s) => .ret (.returns (.error e, s))
  | .panics => .ret .panics
  | .diverges => .ret .diverges

protected def bind (m : Method E A σ ε α) (f : α → Method E A σ ε β) : Method E A σ ε β :=
  fun s => m.run s >>= resume f

instance : Monad (Method E A σ ε) where
  pure value := fun s => .ret (.returns (.ok value, s))
  bind := Method.bind

def get : Method E A σ ε σ := fun s => .ret (.returns (.ok s, s))

def modify (f : σ → σ) : Method E A σ ε Unit := fun s => .ret (.returns (.ok (), f s))

/-- Return early with an error. -/
def fail (e : ε) : Method E A σ ε α := fun s => .ret (.returns (.error e, s))

/-- A computation that the state has no part in. -/
def lift (c : Ending α) : Method E A σ ε α := fun s =>
  .ret (c >>= fun value => .returns (.ok value, s))

/-- The question mark on a result. -/
def ofExcept (result : Except ε α) : Method E A σ ε α := fun s => .ret (.returns (result, s))

/-- `ok_or` and the question mark on what a computation finds. -/
def need (e : ε) (c : Ending (Option α)) : Method E A σ ε α := fun s =>
  .ret (c >>= fun
    | none => .returns (.error e, s)
    | some value => .returns (.ok value, s))

/-- Perform one operation. -/
def call (e : E) : Method E A σ ε (A e) := fun s =>
  .op e fun answer => .ret (.returns (.ok answer, s))

section Runs

variable {f : α → Method E A σ ε β} {s : σ}

@[simp] theorem run_get_bind {f : σ → Method E A σ ε β} :
    (get >>= f).run s = (f s).run s := rfl

@[simp] theorem run_modify_bind {f : Unit → Method E A σ ε β} (g : σ → σ) :
    (modify g >>= f).run s = (f ()).run (g s) := rfl

@[simp] theorem run_lift_bind (value : α) :
    (lift (.returns value) >>= f).run s = (f value).run s := rfl

/-- A computation that comes to no value stops the method. -/
theorem run_lift_bind_stops {c : Ending α} (hc : ¬ c.Returns) :
    ∃ c' : Ending (Except ε β × σ), (lift c >>= f).run s = .ret c' ∧ ¬ c'.Returns := by
  cases c with
  | returns value => exact absurd (Ending.returns_returns value) hc
  | panics => exact ⟨.panics, rfl, Ending.not_returns_panics⟩
  | diverges => exact ⟨.diverges, rfl, Ending.not_returns_diverges⟩

/-- The rest of a sequence may be taken together. -/
theorem bind_assoc {γ : Type} {m : Method E A σ ε α} {g : β → Method E A σ ε γ} :
    m >>= f >>= g = m >>= fun value => f value >>= g := by
  funext s
  change (m.run s >>= resume f) >>= resume g = m.run s >>= resume fun value => f value >>= g
  rw [Program.bind_bind]
  congr 1
  funext c
  cases c with
  | returns result =>
      obtain ⟨result, s'⟩ := result
      cases result with
      | error e => rfl
      | ok value => rfl
  | panics => rfl
  | diverges => rfl

theorem run_bind_of_op {m : Method E A σ ε α} {e : E}
    {next : A e → Program E A (Ending (Except ε α × σ))} (h : m.run s = .op e next) :
    (m >>= f).run s = .op e fun answer => next answer >>= resume f := by
  change m.run s >>= _ = _
  rw [h]
  rfl

theorem run_bind_of_ok {m : Method E A σ ε α} {value : α} {s' : σ}
    (h : m.run s = .ret (.returns (.ok value, s'))) : (m >>= f).run s = (f value).run s' := by
  change m.run s >>= _ = _
  rw [h]
  rfl

end Runs

/-- Run alone, a sequence goes on from where its first part has come to a value. -/
theorem does_bind {γ Env : Type} {exec : Env → γ → (e : E) → A e × γ} {m : Method E A σ ε α}
    {f : α → Method E A σ ε β} {s s' : σ} {value : α} {c c' c'' : γ} {envs envs' : List Env}
    {trace trace' : List (Event A)} {q : Program E A (Ending (Except ε β × σ))}
    (hm : Program.Does exec (m.run s) c envs trace (.ret (.returns (.ok value, s'))) c')
    (hf : Program.Does exec ((f value).run s') c' envs' trace' q c'') :
    Program.Does exec ((m >>= f).run s) c (envs ++ envs') (trace ++ trace') q c'' :=
  Program.Does.bind hm hf

/-- Every run of the method to its end meets `Q`. -/
def Ensures (m : Method E A σ ε α) (s : σ)
    (Q : List (Event A) → Ending (Except ε α × σ) → Prop) : Prop :=
  ∀ trace c, (m.run s).After trace (.ret c) → Q trace c

section Rules

variable {m : Method E A σ ε α} {f : α → Method E A σ ε β} {s : σ}
  {Q Q' : List (Event A) → Ending (Except ε α × σ) → Prop}
  {R : List (Event A) → Ending (Except ε β × σ) → Prop}

theorem Ensures.of_run {trace : List (Event A)} {c : Ending (Except ε α × σ)}
    (h : m.Ensures s Q) (hrun : (m.run s).After trace (.ret c)) : Q trace c := h trace c hrun

theorem Ensures.mono (h : m.Ensures s Q) (himp : ∀ trace c, Q trace c → Q' trace c) :
    m.Ensures s Q' := fun trace c hrun => himp trace c (h trace c hrun)

/-- A method that comes to its end at once. -/
theorem ensures_ret {c : Ending (Except ε α × σ)} (hm : m.run s = .ret c) :
    m.Ensures s Q ↔ Q [] c := by
  constructor
  · intro h
    exact h [] c (Program.after_nil.mpr hm.symm)
  · intro h trace c' hrun
    rw [hm] at hrun
    obtain ⟨rfl, heq⟩ := Program.ret_after.mp hrun
    rw [Program.ret.inj heq]
    exact h

/-- A method of one operation. -/
theorem ensures_of_op {e : E} {next : A e → Program E A (Ending (Except ε α × σ))}
    (hm : m.run s = .op e next)
    (h : ∀ answer, ∃ c, next answer = .ret c ∧ Q [⟨e, answer⟩] c) : m.Ensures s Q := by
  intro trace c hrun
  rw [hm] at hrun
  obtain ⟨answer, rest, rfl, hrest⟩ := Program.op_after_ret hrun
  obtain ⟨c', hc', hQ⟩ := h answer
  rw [hc'] at hrest
  obtain ⟨rfl, heq⟩ := Program.ret_after.mp hrest
  rw [Program.ret.inj heq]
  exact hQ

@[simp] theorem ensures_pure {value : α} :
    (pure value : Method E A σ ε α).Ensures s Q ↔ Q [] (.returns (.ok value, s)) :=
  ensures_ret rfl

@[simp] theorem ensures_fail {e : ε} :
    (fail e : Method E A σ ε α).Ensures s Q ↔ Q [] (.returns (.error e, s)) :=
  ensures_ret rfl

@[simp] theorem ensures_ofExcept {result : Except ε α} :
    (ofExcept result : Method E A σ ε α).Ensures s Q ↔ Q [] (.returns (result, s)) :=
  ensures_ret rfl

@[simp] theorem ensures_call {e : E} {Q : List (Event A) → Ending (Except ε (A e) × σ) → Prop} :
    (call e : Method E A σ ε (A e)).Ensures s Q ↔
      ∀ answer, Q [⟨e, answer⟩] (.returns (.ok answer, s)) := by
  constructor
  · intro h answer
    exact h _ _ (Program.op_after_cons.mpr ⟨answer, rfl, Program.after_nil.mpr rfl⟩)
  · intro h trace c hrun
    obtain ⟨answer, rfl, rfl⟩ := Program.op_ret_after_ret hrun
    exact h answer

/-- What is asked of a run of the first part of a sequence. -/
def Before (f : α → Method E A σ ε β)
    (R : List (Event A) → Ending (Except ε β × σ) → Prop) (trace : List (Event A))
    (c : Ending (Except ε α × σ)) : Prop :=
  ∀ more c', (resume f c).After more (.ret c') → R (trace ++ more) c'

/-- The rule of sequences. -/
theorem ensures_bind : (m >>= f).Ensures s R ↔ m.Ensures s (Before f R) := by
  constructor
  · intro h trace c hrun more c' hmore
    exact h _ _ (Program.after_bind hrun hmore)
  · intro h trace c' hrun
    obtain ⟨first, more, c, rfl, hfirst, hmore⟩ := Program.bind_after_ret hrun
    exact h first c hfirst more c' hmore

theorem before_ret {trace : List (Event A)} {c : Ending (Except ε α × σ)}
    {c' : Ending (Except ε β × σ)} (h : resume f c = .ret c') :
    Before f R trace c ↔ R trace c' := by
  rw [Before, h]
  constructor
  · intro h
    simpa using h [] c' (Program.after_nil.mpr rfl)
  · intro h more c'' hmore
    obtain ⟨rfl, heq⟩ := Program.ret_after.mp hmore
    rw [Program.ret.inj heq, List.append_nil]
    exact h

@[simp] theorem before_ok {trace : List (Event A)} {value : α} :
    Before f R trace (.returns (.ok value, s)) ↔
      (f value).Ensures s fun more c => R (trace ++ more) c := Iff.rfl

@[simp] theorem before_error {trace : List (Event A)} {e : ε} :
    Before f R trace (.returns (.error e, s)) ↔ R trace (.returns (.error e, s)) :=
  before_ret rfl

theorem ensures_get_bind {f : σ → Method E A σ ε β} :
    (get >>= f).Ensures s R ↔ (f s).Ensures s R := Iff.rfl

theorem ensures_modify_bind {f : Unit → Method E A σ ε β} {g : σ → σ} :
    (modify g >>= f).Ensures s R ↔ (f ()).Ensures (g s) R := Iff.rfl

theorem ensures_lift_bind {value : α} :
    (lift (.returns value) >>= f).Ensures s R ↔ (f value).Ensures s R := Iff.rfl

theorem ensures_fail_bind {e : ε} :
    ((fail e : Method E A σ ε α) >>= f).Ensures s R ↔ R [] (.returns (.error e, s)) :=
  ensures_ret rfl

end Rules

/-- How a method ends: it returns just when `holds`, with the value that `yields` tells if
there is one, and leaves a state that is `kept`. -/
inductive Comes (holds : Prop) (yields : α → Prop) (kept : σ → Prop) :
    Ending (Except ε α × σ) → Prop where
  | failed (e : ε) (s : σ) (hholds : holds) (hnone : ∀ value, ¬ yields value)
      (hkept : kept s) : Comes holds yields kept (.returns (.error e, s))
  | stopped {c : Ending (Except ε α × σ)} (hstops : ¬ holds)
      (hnone : ∀ value, ¬ yields value) (hc : ¬ c.Returns) : Comes holds yields kept c
  | yielded (value : α) (s : σ) (hholds : holds)
      (hvalue : ∀ value', yields value' ↔ value' = value) (hkept : kept s) :
      Comes holds yields kept (.returns (.ok value, s))

/-- The method performs no operation, and ends so. -/
def Settles (m : Method E A σ ε α) (s : σ) (holds : Prop) (yields : α → Prop)
    (kept : σ → Prop) : Prop :=
  ∃ c, m.run s = .ret c ∧ Comes holds yields kept c

section Endings

variable {m : Method E A σ ε α} {f : α → Method E A σ ε β} {s : σ} {e : ε} {value : α}
  {c : Ending (Except ε α × σ)} {H H' : Prop} {Y Y' : α → Prop} {K K' : σ → Prop}

theorem Comes.returns_iff (h : Comes H Y K c) : c.Returns ↔ H := by
  cases h with
  | failed e s hholds hnone hkept => exact iff_of_true (Ending.returns_returns _) hholds
  | stopped hstops hnone hc => exact iff_of_false hc hstops
  | yielded value s hholds hvalue hkept =>
      exact iff_of_true (Ending.returns_returns _) hholds

theorem Comes.kept {result : Except ε α} {s' : σ}
    (h : Comes H Y K (.returns (result, s'))) : K s' := by
  cases h with
  | failed e s hholds hnone hkept => exact hkept
  | stopped hstops hnone hc => exact absurd (Ending.returns_returns _) hc
  | yielded value s hholds hvalue hkept => exact hkept

theorem Comes.ok_iff {result : Except ε α} {s' : σ}
    (h : Comes H Y K (.returns (result, s'))) : result = .ok value ↔ Y value := by
  cases h with
  | failed e s hholds hnone hkept => exact iff_of_false nofun (hnone value)
  | stopped hstops hnone hc => exact absurd (Ending.returns_returns _) hc
  | yielded value' s hholds hvalue hkept =>
      rw [hvalue, Except.ok.injEq, eq_comm]

theorem Comes.congr (h : Comes H Y K c) (hH : H ↔ H') (hY : ∀ value, Y value ↔ Y' value)
    (hK : ∀ s', K s' → K' s') : Comes H' Y' K' c := by
  cases h with
  | failed e s hholds hnone hkept =>
      exact .failed e s (hH.mp hholds) (fun value h => hnone value ((hY value).mpr h))
        (hK s hkept)
  | stopped hstops hnone hc =>
      exact .stopped (fun h => hstops (hH.mpr h))
        (fun value h => hnone value ((hY value).mpr h)) hc
  | yielded value s hholds hvalue hkept =>
      exact .yielded value s (hH.mp hholds)
        (fun value' => (hY value').symm.trans (hvalue value')) (hK s hkept)

theorem Settles.congr (h : m.Settles s H Y K) (hH : H ↔ H')
    (hY : ∀ value, Y value ↔ Y' value) : m.Settles s H' Y' K := by
  obtain ⟨c, hrun, hc⟩ := h
  exact ⟨c, hrun, hc.congr hH hY fun _ => id⟩

theorem settles_pure (hs : K s) :
    (pure value : Method E A σ ε α).Settles s True (· = value) K :=
  ⟨_, rfl, .yielded value s trivial (fun _ => Iff.rfl) hs⟩

theorem settles_fail (hs : K s) :
    (fail e : Method E A σ ε α).Settles s True (fun _ => False) K :=
  ⟨_, rfl, .failed e s trivial (fun _ => id) hs⟩

theorem Settles.modify_bind {f : Unit → Method E A σ ε α} {g : σ → σ}
    (h : (f ()).Settles (g s) H Y K) : (modify g >>= f).Settles s H Y K := h

theorem settles_lift {c : Ending α} (hs : K s) :
    (lift c : Method E A σ ε α).Settles s c.Returns (fun value => c = .returns value) K := by
  cases c with
  | returns value =>
      refine ⟨_, rfl, .yielded value s (Ending.returns_returns value) (fun value' => ?_) hs⟩
      rw [Ending.returns.injEq, eq_comm]
  | panics => exact ⟨_, rfl, .stopped Ending.not_returns_panics nofun Ending.not_returns_panics⟩
  | diverges =>
      exact ⟨_, rfl, .stopped Ending.not_returns_diverges nofun Ending.not_returns_diverges⟩

theorem settles_need {c : Ending (Option α)} (hs : K s) :
    (need e c : Method E A σ ε α).Settles s c.Returns
      (fun value => c = .returns (some value)) K := by
  cases c with
  | returns found =>
      cases found with
      | none => exact ⟨_, rfl, .failed e s (Ending.returns_returns none) nofun hs⟩
      | some value =>
          refine ⟨_, rfl, .yielded value s (Ending.returns_returns (some value))
            (fun value' => ?_) hs⟩
          rw [Ending.returns.injEq, Option.some.injEq, eq_comm]
  | panics => exact ⟨_, rfl, .stopped Ending.not_returns_panics nofun Ending.not_returns_panics⟩
  | diverges =>
      exact ⟨_, rfl, .stopped Ending.not_returns_diverges nofun Ending.not_returns_diverges⟩

/-- What follows a method that comes to its end.  A failure keeps what the method kept. -/
theorem Comes.resume {G : α → Prop} {Z : α → β → Prop} (hc : Comes H Y K c)
    (hf : ∀ value s', Y value → K s' → (f value).Settles s' (G value) (Z value) K')
    (hfail : ∀ s', K s' → (∀ value, ¬ Y value) → K' s') :
    ∃ c', resume f c = .ret c' ∧ Comes (H ∧ ∀ value, Y value → G value)
      (fun out => ∃ value, Y value ∧ Z value out) K' c' := by
  cases hc with
  | failed e s hholds hnone hkept =>
      exact ⟨_, rfl, .failed e s ⟨hholds, fun value h => absurd h (hnone value)⟩
        (fun _ ⟨value, h, _⟩ => hnone value h) (hfail s hkept hnone)⟩
  | stopped hstops hnone hc =>
      have hall : ∀ c' : Ending (Except ε β × σ), ¬ c'.Returns →
          Comes (H ∧ ∀ value, Y value → G value)
            (fun out => ∃ value, Y value ∧ Z value out) K' c' := fun c' hc' =>
        .stopped (fun h => hstops h.1) (fun _ ⟨value, h, _⟩ => hnone value h) hc'
      cases c with
      | returns result => exact absurd (Ending.returns_returns _) hc
      | panics => exact ⟨_, rfl, hall _ Ending.not_returns_panics⟩
      | diverges => exact ⟨_, rfl, hall _ Ending.not_returns_diverges⟩
  | yielded value s hholds hvalue hkept =>
      have hself : Y value := (hvalue value).mpr rfl
      obtain ⟨c', hrun, hc'⟩ := hf value s hself hkept
      refine ⟨c', hrun, hc'.congr ?_ ?_ fun _ => id⟩
      · constructor
        · intro hG
          refine ⟨hholds, fun value' h => ?_⟩
          rw [(hvalue value').mp h]
          exact hG
        · rintro ⟨-, hG⟩
          exact hG value hself
      · intro out
        constructor
        · intro hout
          exact ⟨value, hself, hout⟩
        · rintro ⟨value', h, hout⟩
          rw [(hvalue value').mp h] at hout
          exact hout

theorem Settles.bind {G : α → Prop} {Z : α → β → Prop} (hm : m.Settles s H Y K)
    (hf : ∀ value s', Y value → K s' → (f value).Settles s' (G value) (Z value) K')
    (hfail : ∀ s', K s' → (∀ value, ¬ Y value) → K' s') :
    (m >>= f).Settles s (H ∧ ∀ value, Y value → G value)
      (fun out => ∃ value, Y value ∧ Z value out) K' := by
  obtain ⟨c, hrun, hc⟩ := hm
  obtain ⟨c', hresume, hc'⟩ := hc.resume hf hfail
  refine ⟨c', ?_, hc'⟩
  change m.run s >>= Method.resume f = _
  rw [hrun]
  exact hresume

/-- Both parts of a sequence keep the same. -/
theorem Settles.andThen {G : α → Prop} {Z : α → β → Prop} (hm : m.Settles s H Y K)
    (hf : ∀ value s', Y value → K s' → (f value).Settles s' (G value) (Z value) K) :
    (m >>= f).Settles s (H ∧ ∀ value, Y value → G value)
      (fun out => ∃ value, Y value ∧ Z value out) K := hm.bind hf fun _ hkept _ => hkept

theorem Settles.ensures {Q : List (Event A) → Ending (Except ε α × σ) → Prop}
    (h : m.Settles s H Y K) (hQ : ∀ c, Comes H Y K c → Q [] c) : m.Ensures s Q := by
  obtain ⟨c, hrun, hc⟩ := h
  exact (ensures_ret hrun).mpr (hQ c hc)

/-- A method whose operations are over settles the rest of a sequence. -/
theorem Comes.before {G : α → Prop} {Z : α → β → Prop} {trace : List (Event A)}
    {R : List (Event A) → Ending (Except ε β × σ) → Prop} (hc : Comes H Y K c)
    (hf : ∀ value s', Y value → K s' → (f value).Settles s' (G value) (Z value) K')
    (hfail : ∀ s', K s' → (∀ value, ¬ Y value) → K' s')
    (hR : ∀ c', Comes (H ∧ ∀ value, Y value → G value)
      (fun out => ∃ value, Y value ∧ Z value out) K' c' → R trace c') :
    Before f R trace c := by
  obtain ⟨c', hresume, hc'⟩ := hc.resume hf hfail
  exact (before_ret hresume).mpr (hR c' hc')

end Endings

end Method

end RlnGifter
