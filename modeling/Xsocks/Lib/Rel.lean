/-!
This module contains programs in `EStateM` that cannot tell related states apart: they end alike, in states
that are related again.
-/

namespace Rel

variable {ε σ α β : Type}

def Alike (R : σ → σ → Prop) : EStateM.Result ε σ α → EStateM.Result ε σ α → Prop
  | .ok a s, .ok b t => a = b ∧ R s t
  | .error e s, .error f t => e = f ∧ R s t
  | _, _ => False

theorem Alike.ok_or_error {R : σ → σ → Prop} {r r' : EStateM.Result ε σ α} (h : Alike R r r')
    : (∃ a s t, r = .ok a s ∧ r' = .ok a t ∧ R s t) ∨ ∃ e s t, r = .error e s ∧ r' = .error e t ∧ R s t := by
  cases r with
  | ok a s =>
    cases r' with
    | ok b t =>
      obtain ⟨rfl, h⟩ := h
      exact .inl ⟨a, s, t, rfl, rfl, h⟩
    | error e t => exact h.elim
  | error e s =>
    cases r' with
    | ok b t => exact h.elim
    | error f t =>
      obtain ⟨rfl, h⟩ := h
      exact .inr ⟨e, s, t, rfl, rfl, h⟩

def Respects (R : σ → σ → Prop) (x : EStateM ε σ α) : Prop :=
  ∀ s t, R s t → Alike R (x s) (x t)

namespace Respects

variable {R : σ → σ → Prop} {x y : EStateM ε σ α} {f : α → EStateM ε σ β}

theorem pure {a : α} : Respects R (pure a : EStateM ε σ α) :=
  fun _ _ h => ⟨rfl, h⟩

theorem throw {e : ε} : Respects R (throw e : EStateM ε σ α) :=
  fun _ _ h => ⟨rfl, h⟩

theorem modify {g : σ → σ} (hg : ∀ s t, R s t → R (g s) (g t))
    : Respects R (modify g : EStateM ε σ PUnit) :=
  fun s t h => ⟨rfl, hg s t h⟩

theorem bind (hx : Respects R x) (hf : ∀ a, Respects R (f a)) : Respects R (x >>= f) := by
  intro s t h
  simp only [Bind.bind, EStateM.bind]
  rcases (hx s t h).ok_or_error with ⟨a, s', t', hs, ht, h'⟩ | ⟨e, s', t', hs, ht, h'⟩
  . rw [hs, ht]
    exact hf a s' t' h'
  . rw [hs, ht]
    exact ⟨rfl, h'⟩

theorem get_bind {g : σ → EStateM ε σ β} (hg : ∀ s, Respects R (g s)) (hR : ∀ s t, R s t → g t = g s)
    : Respects R (get >>= g) := by
  intro s t h
  show Alike R (g s s) (g t t)
  rw [hR s t h]
  exact hg s s t h

theorem ite {p : Prop} [Decidable p] (hx : Respects R x) (hy : Respects R y)
    : Respects R (if p then x else y) := by
  split
  . exact hx
  . exact hy

end Respects

end Rel
