import Mathlib.Data.List.Basic
import Xsocks.Lib.Run

/-!
This module contains what the owner of a timer expects of a loop, as a machine that accepts or rejects
what the loop does with its timers, and the rule by which a loop is shown to be accepted.
-/

namespace Timer

variable {ι T : Type}

inductive Obs (ι T : Type) where
  | add (i : ι) (now : T)
  | del (i : ι)
  /-- The handler is called for the time `due`. -/
  | run (i : ι) (due now : T)
  | done (i : ι) (now : T)
  | pass (begun : T)
  deriving DecidableEq

structure Log (T : Type) where
  runs : Nat
  running : Bool
  due : T
  time : T

def Log.done (l : Log T) (now : T) : Log T :=
  if l.running then { l with running := false, time := now } else l

theorem Log.done_of_running {l : Log T} (h : l.running = true) (now : T)
    : l.done now = { l with running := false, time := now } :=
  if_pos h

theorem Log.done_of_not_running {l : Log T} (h : l.running = false) (now : T) : l.done now = l := by
  unfold done
  rw [h]
  rfl

theorem Log.done_eq (l : Log T) (now : T)
    : (l.done now).runs = l.runs ∧ (l.done now).due = l.due
      ∧ ((l.done now).time = l.time ∨ (l.done now).time = now) := by
  cases h : l.running with
  | true =>
    rw [done_of_running h]
    exact ⟨rfl, rfl, .inr rfl⟩
  | false =>
    rw [done_of_not_running h]
    exact ⟨rfl, rfl, .inl rfl⟩

abbrev State (ι T : Type) := ι → Option (Log T)

structure Spec (ι T : Type) where
  again : ι → Bool
  interval : ι → T

/-- How often the handler of a timer that is to call it once may be called yet. -/
def left (t : State ι T) (i : ι) : Nat :=
  match t i with
  | some l => if l.runs = 0 then 1 else 0
  | none => 0

theorem left_le_one (t : State ι T) (i : ι) : left t i ≤ 1 := by
  unfold left
  split
  . split <;> omega
  . omega

section

variable [DecidableEq ι]

def State.next (t : State ι T) : Obs ι T → State ι T
  | .add i now => Function.update t i (some ⟨0, false, now, now⟩)
  | .del i => Function.update t i none
  | .run i due now => Function.update t i ((t i).map fun l => ⟨l.runs + 1, true, due, now⟩)
  | .done i now => Function.update t i ((t i).map fun l => l.done now)
  | .pass _ => t

theorem State.next_done_eq_some_iff (t : State ι T) (i j : ι) (now : T) (l' : Log T)
    : t.next (.done i now) j = some l' ↔ ∃ l, t j = some l ∧ l' = if j = i then l.done now else l := by
  rw [next]
  by_cases hij : j = i
  . subst hij
    rw [Function.update_self, Option.map_eq_some_iff]
    simp only [if_true, eq_comm]
  . simp [hij]

theorem State.isSome_next_done (t : State ι T) (i j : ι) (now : T)
    : (t.next (.done i now) j).isSome = (t j).isSome := by
  rw [next]
  by_cases hij : j = i
  . subst hij
    simp
  . simp [hij]

theorem State.next_done_of_not_running {t : State ι T} {i j : ι} {l : Log T} (h : t j = some l)
    (hrunning : l.running = false) (now : T)
    : t.next (.done i now) j = some l := by
  rw [next_done_eq_some_iff]
  exact ⟨l, h, by rw [Log.done_of_not_running hrunning, ite_self]⟩

variable [LE T] [Add T]

def Spec.Allowed (S : Spec ι T) (t : State ι T) : Obs ι T → Prop
  | .run i due now =>
    ∃ l, t i = some l ∧ l.due + S.interval i ≤ due ∧ due ≤ l.time + S.interval i ∧ due ≤ now
      ∧ (S.again i = false → l.runs = 0)
  | .pass begun => ∀ i l, t i = some l → S.again i = true → begun ≤ l.time + S.interval i
  | _ => True

def Spec.Accepts (S : Spec ι T) (t : State ι T) : List (Obs ι T) → Prop
  | [] => True
  | o :: os => S.Allowed t o ∧ S.Accepts (t.next o) os

variable {S : Spec ι T}

section

variable {σ α : Type}

def trace (step : σ → α → σ × Option (Obs ι T)) (s : σ) : List α → List (Obs ι T)
  | [] => []
  | a :: as => (step s a).2.toList ++ trace step (step s a).1 as

def next (step : σ → α → σ × Option (Obs ι T)) (s : σ) (a : α) : Except Empty σ :=
  .ok (step s a).1

def Spec.Keeps (S : Spec ι T) (R : σ → State ι T → Prop) (t : State ι T) (r : σ × Option (Obs ι T)) : Prop :=
  match r.2 with
  | none => R r.1 t
  | some o => S.Allowed t o ∧ R r.1 (t.next o)

theorem Spec.accepts_trace {step : σ → α → σ × Option (Obs ι T)} {C : σ → α → Prop}
    {R : σ → State ι T → Prop} (hstep : ∀ s t a, R s t → C s a → S.Keeps R t (step s a)) {s : σ}
    {t : State ι T} (hs : R s t) {as : List α} (has : Run.Along (next step) C s as)
    : S.Accepts t (trace step s as) := by
  induction as generalizing s t with
  | nil => trivial
  | cons a as ih =>
    have hkeeps := hstep s t a hs has.1
    have hrest := has.2 _ rfl
    unfold Spec.Keeps at hkeeps
    rw [trace]
    cases hobs : (step s a).2 with
    | none =>
      rw [hobs] at hkeeps
      exact ih hkeeps hrest
    | some o =>
      rw [hobs] at hkeeps
      exact ⟨hkeeps.1, ih hkeeps.2 hrest⟩

end

/-! # The handler of a timer that is called once -/

def Obs.isAdd (i : ι) : Obs ι T → Bool
  | .add j _ => j = i
  | _ => false

def Obs.isRun (i : ι) : Obs ι T → Bool
  | .run j _ _ => j = i
  | _ => false

-- Only `add` makes a call possible, and `run` uses it up.
theorem Spec.Allowed.left_next {t : State ι T} {o : Obs ι T} (h : S.Allowed t o) {i : ι}
    (hi : S.again i = false)
    : left (t.next o) i + (if o.isRun i then 1 else 0) ≤ left t i + (if o.isAdd i then 1 else 0) := by
  cases o with
  | add j now =>
    by_cases hj : j = i
    . have := left_le_one (t.next (.add j now)) i
      simp [Obs.isAdd, Obs.isRun, hj] at this ⊢
      omega
    . simp [Obs.isAdd, Obs.isRun, hj, left, State.next, Function.update_of_ne (Ne.symm hj)]
  | del j =>
    by_cases hj : j = i
    . simp [Obs.isAdd, Obs.isRun, hj, left, State.next]
    . simp [Obs.isAdd, Obs.isRun, left, State.next, Function.update_of_ne (Ne.symm hj)]
  | run j due now =>
    by_cases hj : j = i
    . subst hj
      obtain ⟨l, hl, -, -, -, hruns⟩ := h
      simp [Obs.isAdd, Obs.isRun, left, State.next, hl, hruns hi]
    . simp [Obs.isAdd, Obs.isRun, hj, left, State.next, Function.update_of_ne (Ne.symm hj)]
  | done j now =>
    by_cases hj : j = i
    . subst hj
      cases hl : t j with
      | none => simp [Obs.isAdd, Obs.isRun, left, State.next, hl]
      | some l =>
        simp [Obs.isAdd, Obs.isRun, left, State.next, hl, (l.done_eq now).1]
    . simp [Obs.isAdd, Obs.isRun, left, State.next, Function.update_of_ne (Ne.symm hj)]
  | pass begun => simp [Obs.isAdd, Obs.isRun, State.next]

theorem Spec.Accepts.countP_isRun_le {t : State ι T} {os : List (Obs ι T)} (h : S.Accepts t os) {i : ι}
    (hi : S.again i = false)
    : os.countP (Obs.isRun i) ≤ os.countP (Obs.isAdd i) + left t i := by
  induction os generalizing t with
  | nil => exact Nat.zero_le _
  | cons o os ih =>
    have hle := ih h.2
    have hnext := h.1.left_next hi
    rw [List.countP_cons, List.countP_cons]
    omega

end

end Timer
