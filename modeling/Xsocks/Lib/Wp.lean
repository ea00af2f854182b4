/-!
This module contains weakest preconditions for programs in `EStateM`: what has to hold of a state
such that a program started in it returns with `Q` or raises an exception with `E`.
-/

namespace Wp

variable {ε σ α β : Type}

/--
From `s` the program `x` either returns with `Q` or raises an exception with `E`.
-/
def wp (x : EStateM ε σ α) (Q : α → σ → Prop) (E : ε → σ → Prop) (s : σ) : Prop :=
  match x s with
  | .ok a s => Q a s
  | .error e s => E e s

instance (x : EStateM ε σ α) (Q : α → σ → Prop) (E : ε → σ → Prop) (s : σ)
    [∀ a s, Decidable (Q a s)] [∀ e s, Decidable (E e s)] : Decidable (wp x Q E s) :=
  match h : x s with
  | .ok a s => decidable_of_iff (Q a s) (by rw [wp, h])
  | .error e s => decidable_of_iff (E e s) (by rw [wp, h])

@[simp]
theorem wp_pure (a : α) (Q : α → σ → Prop) (E : ε → σ → Prop) (s : σ)
    : wp (pure a) Q E s ↔ Q a s := by
  rfl

@[simp]
theorem wp_bind (x : EStateM ε σ α) (f : α → EStateM ε σ β) (Q : β → σ → Prop) (E : ε → σ → Prop)
    (s : σ)
    : wp (x >>= f) Q E s ↔ wp x (fun a => wp (f a) Q E) E s := by
  simp only [wp, bind, EStateM.bind]
  cases x s <;> rfl

@[simp]
theorem wp_map (x : EStateM ε σ α) (f : α → β) (Q : β → σ → Prop) (E : ε → σ → Prop) (s : σ)
    : wp (f <$> x) Q E s ↔ wp x (fun a => Q (f a)) E s := by
  simp only [wp, Functor.map, EStateM.map]
  cases x s <;> rfl

@[simp]
theorem wp_discard (x : EStateM ε σ α) (Q : PUnit → σ → Prop) (E : ε → σ → Prop) (s : σ)
    : wp (discard x) Q E s ↔ wp x (fun _ => Q .unit) E s := by
  exact wp_map x _ Q E s

@[simp]
theorem wp_get (Q : σ → σ → Prop) (E : ε → σ → Prop) (s : σ)
    : wp (get : EStateM ε σ σ) Q E s ↔ Q s s := by
  rfl

@[simp]
theorem wp_modify (f : σ → σ) (Q : PUnit → σ → Prop) (E : ε → σ → Prop) (s : σ)
    : wp (modify f : EStateM ε σ PUnit) Q E s ↔ Q .unit (f s) := by
  rfl

@[simp]
theorem wp_throw (e : ε) (Q : α → σ → Prop) (E : ε → σ → Prop) (s : σ)
    : wp (throw e : EStateM ε σ α) Q E s ↔ E e s := by
  rfl

theorem wp_mono {x : EStateM ε σ α} {Q Q' : α → σ → Prop} {E E' : ε → σ → Prop} {s : σ}
    (h : wp x Q E s) (hQ : ∀ a s, Q a s → Q' a s) (hE : ∀ e s, E e s → E' e s)
    : wp x Q' E' s := by
  unfold wp at *
  split
  . next heq =>
    rw [heq] at h
    apply hQ
    exact h
  . next heq =>
    rw [heq] at h
    apply hE
    exact h

theorem wp_and {x : EStateM ε σ α} {Q Q' : α → σ → Prop} {E E' : ε → σ → Prop} {s : σ}
    (h : wp x Q E s) (h' : wp x Q' E' s)
    : wp x (fun a s => Q a s ∧ Q' a s) (fun e s => E e s ∧ E' e s) s := by
  unfold wp at *
  split
  . next heq =>
    rw [heq] at h h'
    exact ⟨h, h'⟩
  . next heq =>
    rw [heq] at h h'
    exact ⟨h, h'⟩

theorem post_of_ok {x : EStateM ε σ α} {Q : α → σ → Prop} {E : ε → σ → Prop} {s s' : σ} {a : α}
    (h : wp x Q E s) (heq : x s = .ok a s')
    : Q a s' := by
  rw [wp, heq] at h
  exact h

theorem eq_of_wp_iff {x y : EStateM ε σ α} {s t : σ} (h : ∀ Q E, wp x Q E s ↔ wp y Q E t) : x s = y t := by
  have hy : wp y (fun a s => .ok a s = y t) (fun e s => .error e s = y t) t := by
    unfold wp
    split
    . next heq => exact heq.symm
    . next heq => exact heq.symm
  have hx := (h _ _).mpr hy
  unfold wp at hx
  split at hx
  . next heq => rw [heq, hx]
  . next heq => rw [heq, hx]

theorem eq_ok_of_wp_iff {x : EStateM ε σ α} {s t : σ} {a : α} (h : ∀ Q E, wp x Q E s ↔ Q a t)
    : x s = .ok a t :=
  eq_of_wp_iff (y := pure a) h

theorem eq_error_of_wp_iff {x : EStateM ε σ α} {s t : σ} {e : ε} (h : ∀ Q E, wp x Q E s ↔ E e t)
    : x s = .error e t :=
  eq_of_wp_iff (y := throw e) h

theorem exists_ok_of_wp {x : EStateM ε σ α} {Q : α → σ → Prop} {s : σ}
    (h : wp x Q (fun _ _ => False) s)
    : ∃ a s', x s = .ok a s' ∧ Q a s' := by
  unfold wp at h
  split at h
  . next a s' heq => exact ⟨a, s', heq, h⟩
  . exact h.elim

theorem exists_ok_unit {x : EStateM ε σ Unit} {Q : σ → Prop} {s : σ}
    (h : wp x (fun _ s => Q s) (fun _ _ => False) s)
    : ∃ s', x s = .ok () s' ∧ Q s' := by
  obtain ⟨_, s', heq, hQ⟩ := exists_ok_of_wp h
  exact ⟨s', heq, hQ⟩

def Triple (P : σ → Prop) (x : EStateM ε σ α) (Q : α → σ → Prop) (E : ε → σ → Prop) : Prop :=
  ∀ s, P s → wp x Q E s

namespace Triple

variable {P P' : σ → Prop} {x y : EStateM ε σ α} {Q Q' : α → σ → Prop} {E : ε → σ → Prop}

theorem pure {a : α} (h : ∀ s, P s → Q a s) : Triple P (pure a) Q E :=
  fun s hs => h s hs

theorem throw {e : ε} (h : ∀ s, P s → E e s) : Triple P (throw e) Q E :=
  fun s hs => h s hs

theorem get : Triple P (get : EStateM ε σ σ) (fun _ => P) E :=
  fun _ hs => hs

theorem modify {f : σ → σ} {R : PUnit → σ → Prop} (h : ∀ s, P s → R .unit (f s))
    : Triple P (modify f) R E :=
  fun s hs => h s hs

theorem bind {f : α → EStateM ε σ β} {R : β → σ → Prop} (hx : Triple P x Q E)
    (hf : ∀ a, Triple (Q a) (f a) R E)
    : Triple P (x >>= f) R E := by
  intro s hs
  rw [wp_bind]
  exact wp_mono (hx s hs) (fun a s ha => hf a s ha) fun _ _ he => he

theorem mono (h : Triple P x Q E) (hP : ∀ s, P' s → P s) (hQ : ∀ a s, Q a s → Q' a s)
    : Triple P' x Q' E :=
  fun s hs => wp_mono (h s (hP s hs)) hQ fun _ _ he => he

theorem or (h : Triple P x Q E) (h' : Triple P' x Q E) : Triple (fun s => P s ∨ P' s) x Q E := by
  intro s hs
  rcases hs with hs | hs
  . exact h s hs
  . exact h' s hs

theorem of_and {p : Prop} (h : p → Triple P x Q E) : Triple (fun s => p ∧ P s) x Q E :=
  fun s hs => h hs.1 s hs.2

end Triple

end Wp
