import Mathlib.Logic.Basic

namespace transformer_engine

/-- Both model packages run their fallible code in `Except String`; these peel a `do` block
that returned or raised. -/
theorem ok_bind {ε α β : Type} (a : α) (f : α → Except ε β) : (Except.ok a >>= f) = f a := rfl

theorem error_bind {ε α β : Type} (e : ε) (f : α → Except ε β) :
    (Except.error e >>= f) = .error e := rfl

theorem pure_eq_ok {ε α : Type} {a b : α} : (pure a : Except ε α) = .ok b ↔ a = b :=
  Except.ok.injEq a b ▸ Iff.rfl

theorem pure_ne_error {ε α : Type} (a : α) (e : ε) : (pure a : Except ε α) ≠ .error e :=
  nofun

theorem exists_ok_iff {ε α : Type} {x : Except ε α} : (∃ a, x = .ok a) ↔ ∀ e, x ≠ .error e := by
  cases x <;> simp

theorem bind_eq_ok {ε β γ : Type} {x : Except ε β} {f : β → Except ε γ} {c : γ} :
    x >>= f = .ok c ↔ ∃ a, x = .ok a ∧ f a = .ok c := by
  cases x <;> simp [bind, Except.bind]

end transformer_engine
