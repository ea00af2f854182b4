/-!
This module contains runs of a step function over a list of actions, and the rules that carry an
invariant from single steps to runs.
-/

namespace Run

variable {σ α ε : Type}

def run (step : σ → α → Except ε σ) (s : σ) : List α → Except ε σ
  | [] => .ok s
  | a :: as =>
    match step s a with
    | .ok s => run step s as
    | .error e => .error e

/-- `C` holds of every action of a run, in the state in which it is taken. -/
def Along (step : σ → α → Except ε σ) (C : σ → α → Prop) (s : σ) : List α → Prop
  | [] => True
  | a :: as => C s a ∧ ∀ s', step s a = .ok s' → Along step C s' as

instance instDecidableAlong (step : σ → α → Except ε σ) (C : σ → α → Prop)
    [∀ s a, Decidable (C s a)]
    : ∀ s as, Decidable (Along step C s as)
  | _, [] => .isTrue trivial
  | s, a :: as =>
    match h : step s a with
    | .ok s' =>
      have := instDecidableAlong step C s' as
      decidable_of_iff (C s a ∧ Along step C s' as) (by simp [Along, h])
    | .error _ => decidable_of_iff (C s a) (by simp [Along, h])

/--
If no step fails in a state with the invariant `I` and all of them keep it, then no run fails and all
of them keep it.
-/
theorem exists_run {step : σ → α → Except ε σ} {C : σ → α → Prop} {I : σ → Prop}
    (hstep : ∀ s a, I s → C s a → ∃ s', step s a = .ok s' ∧ I s') {s : σ} (hs : I s)
    {as : List α} (has : Along step C s as)
    : ∃ s', run step s as = .ok s' ∧ I s' := by
  induction as generalizing s with
  | nil => exact ⟨s, rfl, hs⟩
  | cons a as ih =>
    rw [Along] at has
    obtain ⟨hC, has⟩ := has
    obtain ⟨s', heq, hs'⟩ := hstep s a hs hC
    rw [run, heq]
    exact ih hs' (has s' heq)

theorem invariant_run {step : σ → α → Except ε σ} {C : σ → α → Prop} {I : σ → Prop}
    (hstep : ∀ s a s', I s → C s a → step s a = .ok s' → I s') {s s' : σ} (hs : I s)
    {as : List α} (has : Along step C s as) (hrun : run step s as = .ok s')
    : I s' := by
  induction as generalizing s with
  | nil =>
    simp only [run, Except.ok.injEq] at hrun
    rw [← hrun]
    exact hs
  | cons a as ih =>
    rw [Along] at has
    obtain ⟨hC, has⟩ := has
    rw [run] at hrun
    split at hrun
    . next s₁ heq => exact ih (hstep s a s₁ hs hC heq) (has s₁ heq) hrun
    . contradiction

theorem exists_ok_of_eval {r : Except ε σ} (P : σ → Prop) [DecidablePred P]
    (h : (match r with | .ok s => decide (P s) | .error _ => false) = true)
    : ∃ s, r = .ok s ∧ P s := by
  split at h
  . next s => exact ⟨s, rfl, of_decide_eq_true h⟩
  . contradiction

theorem Along.mono {step : σ → α → Except ε σ} {C C' : σ → α → Prop} (hC : ∀ s a, C s a → C' s a) {s : σ}
    {as : List α} (h : Along step C s as)
    : Along step C' s as := by
  induction as generalizing s with
  | nil => trivial
  | cons a as ih => exact ⟨hC s a h.1, fun s' heq => ih (h.2 s' heq)⟩

theorem Along.of_invariant {step : σ → α → Except ε σ} {C C' : σ → α → Prop} {I : σ → Prop} {s : σ} {as : List α}
    (h : Along step C s as) (hstep : ∀ s a s', I s → C s a → step s a = .ok s' → I s')
    (hC : ∀ s a, I s → C s a → C' s a) (hs : I s)
    : Along step C' s as := by
  induction as generalizing s with
  | nil => trivial
  | cons a as ih => exact ⟨hC s a hs h.1, fun s' heq => ih (h.2 s' heq) (hstep s a s' hs h.1 heq)⟩

theorem along_congr {step : σ → α → Except ε σ} {C C' : σ → α → Prop} {I : σ → Prop}
    (hC : ∀ s a, I s → (C s a ↔ C' s a)) (hstep : ∀ s a s', I s → C s a → step s a = .ok s' → I s')
    {s : σ} {as : List α} (hs : I s)
    : Along step C s as ↔ Along step C' s as := by
  induction as generalizing s with
  | nil => exact Iff.rfl
  | cons a as ih =>
    rw [Along, Along, ← hC s a hs]
    refine and_congr_right fun ha => ?_
    exact forall_congr' fun s' => imp_congr_right fun heq => ih (hstep s a s' hs ha heq)

/-- A run on whose side `watch` keeps what it has seen of the actions. -/
def watched {τ : Type} (step : σ → α → Except ε σ) (watch : τ → α → τ) (w : σ × τ) (a : α) : Except ε (σ × τ) :=
  match step w.1 a with
  | .ok s => .ok (s, watch w.2 a)
  | .error e => .error e

theorem Along.of_watched {τ : Type} {step : σ → α → Except ε σ} {watch : τ → α → τ} {C : σ × τ → α → Prop}
    {C' : σ → α → Prop} {I : σ → τ → Prop} {s : σ} {t : τ} {as : List α}
    (h : Along (watched step watch) C (s, t) as)
    (hstep : ∀ s t a s', I s t → step s a = .ok s' → I s' (watch t a))
    (hC : ∀ s t a, I s t → C (s, t) a → C' s a) (hs : I s t)
    : Along step C' s as := by
  induction as generalizing s t with
  | nil => trivial
  | cons a as ih =>
    refine ⟨hC s t a hs h.1, fun s' heq => ih (h.2 (s', watch t a) ?_) (hstep s t a s' hs heq)⟩
    rw [watched, heq]

theorem along_of_forall {step : σ → α → Except ε σ} {C : σ → α → Prop} (h : ∀ s a, C s a) (s : σ)
    (as : List α)
    : Along step C s as := by
  induction as generalizing s with
  | nil => trivial
  | cons a as ih => exact ⟨h s a, fun s' _ => ih s'⟩

theorem along_true (step : σ → α → Except ε σ) (s : σ) (as : List α)
    : Along step (fun _ _ => True) s as :=
  along_of_forall (fun _ _ => trivial) s as

theorem countP_set_int {l : List α} {i : Nat} {b : α} (h : l[i]? = some b) (a : α)
    (q : α → Bool)
    : ((l.set i a).countP q : Int) - (if q a then 1 else 0) = l.countP q - (if q b then 1 else 0) := by
  obtain ⟨hlt, hb⟩ := List.getElem?_eq_some_iff.mp h
  have hle := List.boole_getElem_le_countP (p := q) hlt
  rw [List.countP_set hlt]
  rw [hb] at hle ⊢
  revert hle
  cases q b <;> cases q a <;> simp only [if_true, Bool.false_eq_true, if_false] <;> omega

end Run
