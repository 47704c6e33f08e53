/-
Loops that may fail to end.  A turn of a loop goes on to another state, returns, or
stops the program; where the states a loop reaches are finitely many, a run that is
long enough to meet one of them twice never ends.
-/
import Mathlib.Data.Finset.Card
import Mathlib.Data.Finset.Range
import Mathlib.Logic.Relation

namespace RlnGifter

/-- How a computation ends. -/
inductive Ending (α : Type) where
  | returns (value : α)
  | panics
  | diverges
deriving DecidableEq

namespace Ending

variable {α β γ : Type}

protected def bind (c : Ending α) (f : α → Ending β) : Ending β :=
  match c with
  | .returns value => f value
  | .panics => .panics
  | .diverges => .diverges

instance : Monad Ending where
  pure := .returns
  bind := Ending.bind

@[simp] theorem pure_eq_returns (value : α) : (pure value : Ending α) = .returns value := rfl

@[simp] theorem returns_bind (value : α) (f : α → Ending β) :
    (Ending.returns value >>= f) = f value := rfl

@[simp] theorem panics_bind (f : α → Ending β) : (Ending.panics >>= f) = .panics := rfl

@[simp] theorem diverges_bind (f : α → Ending β) : (Ending.diverges >>= f) = .diverges := rfl

theorem bind_eq_returns {c : Ending α} {f : α → Ending β} {b : β} :
    (c >>= f) = .returns b ↔ ∃ value, c = .returns value ∧ f value = .returns b := by
  cases c with
  | returns value => simp
  | panics => simp
  | diverges => simp

/-- The computation comes to a value. -/
def Returns (c : Ending α) : Prop := ∃ value, c = .returns value

@[simp] theorem returns_returns (value : α) : (Ending.returns value).Returns := ⟨value, rfl⟩

@[simp] theorem not_returns_panics : ¬ (Ending.panics : Ending α).Returns := by
  rintro ⟨value, h⟩
  cases h

@[simp] theorem not_returns_diverges : ¬ (Ending.diverges : Ending α).Returns := by
  rintro ⟨value, h⟩
  cases h

/-- A sequence comes to a value when its first part does and what follows it does. -/
theorem returns_bind_iff {c : Ending α} {f : α → Ending β} :
    (c >>= f).Returns ↔ ∃ value, c = .returns value ∧ (f value).Returns := by
  cases c with
  | returns value => simp
  | panics => simp
  | diverges => simp

end Ending

/-- One turn of a loop. -/
inductive Turn (σ α : Type) where
  | next (s : σ)
  | returns (value : α)
  | panics

namespace Turn

variable {σ α : Type} {turn : σ → Turn σ α} {s t : σ}

/-- At most `n` turns of a loop; a run that is not over then counts as endless. -/
def run (turn : σ → Turn σ α) : Nat → σ → Ending α
  | 0, _ => .diverges
  | n + 1, s =>
      match turn s with
      | .next s' => run turn n s'
      | .returns value => .returns value
      | .panics => .panics

theorem run_succ_next {n : Nat} {s' : σ} (h : turn s = .next s') :
    run turn (n + 1) s = run turn n s' := by
  simp only [run, h]

theorem run_succ_returns {n : Nat} {value : α} (h : turn s = .returns value) :
    run turn (n + 1) s = .returns value := by
  simp only [run, h]

theorem run_succ_panics {n : Nat} (h : turn s = .panics) :
    run turn (n + 1) s = .panics := by
  simp only [run, h]

/-- The state after `n` turns, if none of them ends the loop. -/
def after (turn : σ → Turn σ α) : Nat → σ → Option σ
  | 0, s => some s
  | n + 1, s =>
      match turn s with
      | .next s' => after turn n s'
      | _ => none

theorem after_succ {n : Nat} : after turn (n + 1) s = some t ↔
    ∃ s', turn s = .next s' ∧ after turn n s' = some t := by
  rw [after]
  cases turn s with
  | next s' => simp
  | returns value => simp
  | panics => simp

theorem after_add {m n : Nat} :
    after turn (m + n) s = some t ↔
      ∃ mid, after turn m s = some mid ∧ after turn n mid = some t := by
  induction m generalizing s with
  | zero => simp [after]
  | succ m ih =>
      rw [Nat.succ_add, after_succ]
      constructor
      · rintro ⟨s', hturn, hafter⟩
        obtain ⟨mid, hmid, hlast⟩ := ih.mp hafter
        exact ⟨mid, after_succ.mpr ⟨s', hturn, hmid⟩, hlast⟩
      · rintro ⟨mid, hmid, hlast⟩
        obtain ⟨s', hturn, hafter⟩ := after_succ.mp hmid
        exact ⟨s', hturn, ih.mpr ⟨mid, hafter, hlast⟩⟩

/-- The states a loop comes to. -/
inductive Reached (turn : σ → Turn σ α) (start : σ) : σ → Prop where
  | start : Reached turn start start
  | next {s s' : σ} (h : Reached turn start s) (hturn : turn s = .next s') :
      Reached turn start s'

theorem Reached.after {start : σ} (h : Reached turn start s) :
    ∃ n, after turn n start = some s := by
  induction h with
  | start => exact ⟨0, rfl⟩
  | next _ hturn ih =>
      obtain ⟨n, hn⟩ := ih
      exact ⟨n + 1, after_add.mpr ⟨_, hn, after_succ.mpr ⟨_, hturn, rfl⟩⟩⟩

theorem Reached.of_after {start : σ} {n : Nat} (h : Reached turn start s)
    (hafter : Turn.after turn n s = some t) : Reached turn start t := by
  induction n generalizing s with
  | zero =>
      obtain rfl := Option.some.inj hafter
      exact h
  | succ n ih =>
      obtain ⟨s', hturn, hrest⟩ := after_succ.mp hafter
      exact ih (h.next hturn) hrest

/-- A run is cut short by its bound when no turn before it ends the loop. -/
theorem run_eq_diverges {n : Nat} :
    run turn n s = .diverges ↔ ∃ t, after turn n s = some t := by
  induction n generalizing s with
  | zero => simp [run, after]
  | succ n ih =>
      simp only [after_succ]
      rw [run]
      cases hturn : turn s with
      | next s' => simp [ih]
      | returns value => simp
      | panics => simp

/-- A run that ends does so at a state it comes to. -/
theorem run_eq_returns {n : Nat} {value : α} (h : run turn n s = .returns value) :
    ∃ t, Reached turn s t ∧ turn t = .returns value := by
  have hat : ∀ start, Reached turn start s → ∃ t, Reached turn start t ∧
      turn t = .returns value := by
    induction n generalizing s with
    | zero => cases h
    | succ n ih =>
        intro start hs
        cases hturn : turn s with
        | next s' => exact ih (run_succ_next hturn ▸ h) start (hs.next hturn)
        | returns value' =>
            rw [run_succ_returns hturn, Ending.returns.injEq] at h
            exact ⟨s, hs, h ▸ hturn⟩
        | panics =>
            rw [run_succ_panics hturn] at h
            cases h
  exact hat s .start

theorem run_eq_panics {n : Nat} (h : run turn n s = .panics) :
    ∃ t, Reached turn s t ∧ turn t = .panics := by
  have hat : ∀ start, Reached turn start s → ∃ t, Reached turn start t ∧
      turn t = .panics := by
    induction n generalizing s with
    | zero => cases h
    | succ n ih =>
        intro start hs
        cases hturn : turn s with
        | next s' => exact ih (run_succ_next hturn ▸ h) start (hs.next hturn)
        | returns value =>
            rw [run_succ_returns hturn] at h
            cases h
        | panics => exact ⟨s, hs, hturn⟩
  exact hat s .start

/-- A run goes on as one from any state it comes to. -/
theorem run_add {m n : Nat} (h : after turn m s = some t) :
    run turn (m + n) s = run turn n t := by
  induction m generalizing s with
  | zero =>
      obtain rfl := Option.some.inj h
      rw [Nat.zero_add]
  | succ m ih =>
      obtain ⟨s', hturn, hrest⟩ := after_succ.mp h
      rw [Nat.succ_add, run_succ_next hturn, ih hrest]

/-- A loop that comes to a turn that stops the program never returns. -/
theorem Reached.not_returns {start : σ} (h : Reached turn start s) (hturn : turn s = .panics)
    (n : Nat) : ¬ (run turn n start).Returns := by
  obtain ⟨m, hm⟩ := h.after
  by_cases hn : n ≤ m
  · obtain ⟨more, rfl⟩ := Nat.exists_eq_add_of_le hn
    obtain ⟨mid, hmid, -⟩ := after_add.mp hm
    rw [run_eq_diverges.mpr ⟨mid, hmid⟩]
    exact Ending.not_returns_diverges
  · obtain ⟨more, rfl⟩ := Nat.exists_eq_add_of_lt (Nat.lt_of_not_le hn)
    rw [Nat.add_assoc, run_add hm, run_succ_panics hturn]
    exact Ending.not_returns_panics

/-- Some number of turns, but not none, takes one state to another. -/
theorem transGen_iff_after : Relation.TransGen (fun s s' => turn s = .next s') s t ↔
    ∃ n, after turn (n + 1) s = some t := by
  constructor
  · intro h
    induction h with
    | single hturn => exact ⟨0, after_succ.mpr ⟨_, hturn, rfl⟩⟩
    | tail _ hturn ih =>
        obtain ⟨n, hn⟩ := ih
        exact ⟨n + 1, after_add.mpr ⟨_, hn, after_succ.mpr ⟨_, hturn, rfl⟩⟩⟩
  · rintro ⟨n, hn⟩
    induction n generalizing s with
    | zero =>
        obtain ⟨s', hturn, hrest⟩ := after_succ.mp hn
        obtain rfl := Option.some.inj hrest
        exact .single hturn
    | succ n ih =>
        obtain ⟨s', hturn, hrest⟩ := after_succ.mp hn
        exact .head hturn (ih hrest)

/-- The loop comes to a state and back to it. -/
def Cycles (turn : σ → Turn σ α) (start : σ) : Prop :=
  ∃ s n, Reached turn start s ∧ after turn (n + 1) s = some s

/-- A loop that comes back to a state goes on for ever. -/
theorem Cycles.diverges (h : Cycles turn s) (n : Nat) : run turn n s = .diverges := by
  obtain ⟨t, k, ht, hback⟩ := h
  obtain ⟨m, hm⟩ := ht.after
  have hlong : ∀ n, ∃ u, after turn n t = some u := by
    intro n
    induction n using Nat.strongRecOn with
    | ind n ih =>
        by_cases hn : n ≤ k + 1
        · obtain ⟨more, hmore⟩ := Nat.exists_eq_add_of_le hn
          rw [hmore] at hback
          obtain ⟨mid, hmid, -⟩ := after_add.mp hback
          exact ⟨mid, hmid⟩
        · obtain ⟨more, hmore⟩ := Nat.exists_eq_add_of_lt (Nat.lt_of_not_le hn)
          obtain ⟨u, hu⟩ := ih (more + 1) (by omega)
          refine ⟨u, ?_⟩
          rw [show n = k + 1 + (more + 1) by omega]
          exact after_add.mpr ⟨t, hback, hu⟩
  rw [run_eq_diverges]
  obtain ⟨u, hu⟩ := hlong n
  have hall : after turn (m + n) s = some u := after_add.mpr ⟨t, hm, hu⟩
  rw [Nat.add_comm] at hall
  obtain ⟨mid, hmid, -⟩ := after_add.mp hall
  exact ⟨mid, hmid⟩

/-- Among the states of a run longer than they are many, one is met twice. -/
theorem cycles_of_long {S : Finset σ} (hS : ∀ t, Reached turn s t → t ∈ S)
    (h : run turn S.card s = .diverges) : Cycles turn s := by
  classical
  obtain ⟨last, hlast⟩ := run_eq_diverges.mp h
  have hdefined : ∀ n ≤ S.card, ∃ t, after turn n s = some t := by
    intro n hn
    obtain ⟨more, hmore⟩ := Nat.exists_eq_add_of_le hn
    rw [hmore] at hlast
    obtain ⟨mid, hmid, -⟩ := after_add.mp hlast
    exact ⟨mid, hmid⟩
  have hstate : ∀ n ∈ Finset.range (S.card + 1), (after turn n s).getD s ∈ S := by
    intro n hn
    obtain ⟨t, ht⟩ := hdefined n (Nat.lt_succ_iff.mp (Finset.mem_range.mp hn))
    rw [ht, Option.getD_some]
    exact hS t (Reached.start.of_after ht)
  have hcard : S.card < (Finset.range (S.card + 1)).card := by
    rw [Finset.card_range]
    exact Nat.lt_succ_self _
  obtain ⟨p, hp, q, hq, hne, heq⟩ :=
    Finset.exists_ne_map_eq_of_card_lt_of_maps_to hcard hstate
  have hback : ∀ p q, p ≤ S.card → q ≤ S.card → p < q →
      (after turn p s).getD s = (after turn q s).getD s → Cycles turn s := by
    intro p q hp hq hpq heq
    obtain ⟨t, ht⟩ := hdefined p hp
    obtain ⟨u, hu⟩ := hdefined q hq
    rw [ht, hu, Option.getD_some, Option.getD_some] at heq
    subst heq
    obtain ⟨k, rfl⟩ := Nat.exists_eq_add_of_lt hpq
    rw [Nat.add_assoc] at hu
    obtain ⟨mid, hmid, hrest⟩ := after_add.mp hu
    rw [ht, Option.some.injEq] at hmid
    subst hmid
    exact ⟨t, k, Reached.start.of_after ht, hrest⟩
  have hp' := Nat.lt_succ_iff.mp (Finset.mem_range.mp hp)
  have hq' := Nat.lt_succ_iff.mp (Finset.mem_range.mp hq)
  rcases Nat.lt_or_gt_of_ne hne with hpq | hqp
  · exact hback p q hp' hq' hpq heq
  · exact hback q p hq' hp' hqp heq.symm

/-- A bound on the states decides whether the loop ever ends. -/
theorem run_card_eq_diverges {S : Finset σ} (hS : ∀ t, Reached turn s t → t ∈ S) :
    run turn S.card s = .diverges ↔ Cycles turn s :=
  ⟨cycles_of_long hS, fun h => h.diverges _⟩

/-- A loop whose turns go down in a measure and never stop the program returns. -/
theorem returns_of_decreasing (measure : σ → Nat) {start : σ}
    (hnext : ∀ s s', Reached turn start s → turn s = .next s' → measure s' < measure s)
    (hpanics : ∀ s, Reached turn start s → turn s ≠ .panics) {n : Nat}
    (hn : measure start < n) : (run turn n start).Returns := by
  have hfrom : ∀ s, Reached turn start s → ∀ n, measure s < n → (run turn n s).Returns := by
    intro s hs n hn
    induction n generalizing s with
    | zero => exact absurd hn (Nat.not_lt_zero _)
    | succ n ih =>
        cases hturn : turn s with
        | next s' =>
            rw [run_succ_next hturn]
            exact ih s' (hs.next hturn) (by have := hnext s s' hs hturn; omega)
        | returns value =>
            rw [run_succ_returns hturn]
            exact ⟨value, rfl⟩
        | panics => exact absurd hturn (hpanics s hs)
  exact hfrom start .start n hn

end Turn

end RlnGifter
