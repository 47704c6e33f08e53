/-
Programs that run among others.  Between two operations of a program the others
may change the state by any step of a relation; a program is safe when, whatever
they do, it performs each operation where it is allowed and returns only where its
result is justified.
-/
import RlnGifter.Program

namespace RlnGifter

namespace Program

variable {E : Type} {A : E → Type} {α β : Type} {σ Env : Type}

/-- Started in `s`, among others that make the changes `rely`, the program performs
every operation where `need` allows it, and `post` holds of what it returns. -/
def Safe (exec : Env → σ → (e : E) → A e × σ) (rely : σ → σ → Prop) (need : σ → E → Prop)
    (post : α → σ → Prop) : Program E A α → σ → Prop
  | .ret value, s => ∀ s', rely s s' → post value s'
  | .op e next, s => ∀ s', rely s s' → need s' e ∧
      ∀ env, (next (exec env s' e).1).Safe exec rely need post (exec env s' e).2

variable {exec : Env → σ → (e : E) → A e × σ} {rely : σ → σ → Prop} {need : σ → E → Prop}
  {post : α → σ → Prop}

@[simp] theorem safe_ret {value : α} {s : σ} :
    (Program.ret value).Safe exec rely need post s ↔ ∀ s', rely s s' → post value s' :=
  Iff.rfl

@[simp] theorem safe_op {e : E} {next : A e → Program E A α} {s : σ} :
    (Program.op e next).Safe exec rely need post s ↔ ∀ s', rely s s' → need s' e ∧
      ∀ env, (next (exec env s' e).1).Safe exec rely need post (exec env s' e).2 :=
  Iff.rfl

/-- The others may act before the program does. -/
theorem Safe.stable {p : Program E A α} {s s' : σ}
    (htrans : ∀ {a b c}, rely a b → rely b c → rely a c)
    (h : p.Safe exec rely need post s) (hrely : rely s s') :
    p.Safe exec rely need post s' := by
  cases p with
  | ret value => exact fun s'' hrely' => h s'' (htrans hrely hrely')
  | op e next => exact fun s'' hrely' => h s'' (htrans hrely hrely')

theorem Safe.weaken {post' : α → σ → Prop} {p : Program E A α} {s : σ}
    (h : p.Safe exec rely need post s) (hpost : ∀ value s, post value s → post' value s) :
    p.Safe exec rely need post' s := by
  induction p generalizing s with
  | ret value => exact fun s' hrely => hpost value s' (h s' hrely)
  | op e next ih =>
      intro s' hrely
      obtain ⟨hneed, hnext⟩ := h s' hrely
      exact ⟨hneed, fun env => ih _ (hnext env)⟩

/-- Safe programs compose: the second starts where the first may end. -/
theorem Safe.bind {mid : α → σ → Prop} {post' : β → σ → Prop} {p : Program E A α}
    {f : α → Program E A β} {s : σ} (hrefl : ∀ s, rely s s)
    (hp : p.Safe exec rely need mid s)
    (hf : ∀ value s, mid value s → (f value).Safe exec rely need post' s) :
    (p >>= f).Safe exec rely need post' s := by
  induction p generalizing s with
  | ret value => exact hf value s (hp s (hrefl s))
  | op e next ih =>
      intro s' hrely
      obtain ⟨hneed, hnext⟩ := hp s' hrely
      exact ⟨hneed, fun env => ih _ (hnext env)⟩

/-- What the others keep and every operation of the program keeps and allows, holds
when it returns. -/
theorem safe_of_only {ok : E → Prop} {I : σ → Prop} {p : Program E A α} {s : σ}
    (hp : p.Only ok) (hrely : ∀ s s', I s → rely s s' → I s')
    (hneed : ∀ s e, ok e → I s → need s e)
    (hkeep : ∀ env s e, ok e → I s → I (exec env s e).2) (hs : I s) :
    p.Safe exec rely need (fun _ => I) s := by
  induction p generalizing s with
  | ret value => exact fun s' h => hrely s s' hs h
  | op e next ih =>
      intro s' h
      have hs' := hrely s s' hs h
      exact ⟨hneed s' e hp.1 hs', fun env => ih _ (hp.2 _) (hkeep env s' e hp.1 hs')⟩

end Program

end RlnGifter
