import Mathlib.Algebra.Order.Field.Rat
import Mathlib.Tactic.Linarith
import Xsocks.Event.Lemmas.TimeEvents

/-!
This module contains what the timers of `event_libev.h` do, and that those of `event_ae.h` do the same.
-/

namespace Xsocks.Ev

open Ae

section

variable {σ : Type} {event : Nat → Event}

theorem again_of_once {i : Nat} (h : ¬Again event i) : (eventApiNewTimer (event i)).again = 0 := by
  unfold Again at h
  rw [not_not] at h
  exact if_pos h

theorem again_of_again {i : Nat} (h : Again event i)
    : (eventApiNewTimer (event i)).again = (eventApiNewTimer (event i)).after := by
  exact if_neg h

theorem after_pos {i : Nat} (h : 0 < (event i).id) : 0 < (eventApiNewTimer (event i)).after := by
  unfold eventApiNewTimer MILLISECOND_UNIT_F
  have hid : (0 : ℚ) < (event i).id := by exact_mod_cast h
  dsimp only
  linarith

variable {L : LibevTimers σ fun i => eventApiNewTimer (event i)}

namespace EvTimers

/--
The interval of a timer that is to be called again is positive, and a timer that is added has got all of its interval
left.
-/
def Whole (event : Nat → Event) (L : LibevTimers σ fun i => eventApiNewTimer (event i)) (m : EvTimers σ)
    : EvAct → Prop
  | .eventAdd i _ => (event i).type = .time → m.state.el i = false
    → (Again event i → 0 < (event i).id) ∧ L.evAt m.state.loop i = (eventApiNewTimer (event i)).after
  | _ => True

section

variable {s : σ} {i j : Nat}

theorem due_default : due event L L.EV_DEFAULT i = none := by
  rw [due, L.active_default]
  exact if_neg (by simp)

theorem due_eq_some {d : ℚ} (h : due event L s i = some d) : L.evAt s i = d := by
  unfold due at h
  split at h
  . exact Option.some.inj h
  . contradiction

theorem active_of_due_eq_none (htype : (event i).type = .time) (h : due event L s i = none)
    : L.evIsActive s i = false := by
  unfold due at h
  split at h
  . contradiction
  . next hnot => simpa [htype] using hnot

theorem due_congr {s' : σ} (hat : L.evAt s' j = L.evAt s j) (hactive : L.evIsActive s' j = L.evIsActive s j)
    : due event L s' j = due event L s j := by
  rw [due, due, hat, hactive]

theorem due_start_of_ne (type : EventType) (hj : j ≠ i)
    : due event L (L.evTypeStart type s i) j = due event L s j := by
  apply due_congr
  . rw [L.at_start, if_neg (by simp [hj])]
  . simp [L.active_start, hj]

theorem due_start_self (htype : (event i).type = .time) (hdue : due event L s i = none)
    : due event L (L.evTypeStart .time s i) i = some (L.evNow s + L.evAt s i) := by
  have hactive := active_of_due_eq_none htype hdue
  rw [due, if_pos ⟨htype, by simp [L.active_start]⟩, L.at_start, if_pos ⟨rfl, rfl, hactive⟩]

theorem due_stop_of_ne (type : EventType) (hj : j ≠ i)
    : due event L (L.evTypeStop type s i) j = due event L s j := by
  apply due_congr
  . rw [L.at_stop, if_neg (by simp [hj])]
  . simp [L.active_stop, hj]

theorem due_stop_self (type : EventType) : due event L (L.evTypeStop type s i) i = none := by
  rw [due, L.active_stop]
  exact if_neg (by simp)

theorem due_of_not_time (htype : (event i).type ≠ .time) : due event L s i = none :=
  if_neg fun h => htype h.1

theorem due_sleep (t : ℚ) : due event L (L.sleep s t) j = due event L s j :=
  due_congr (L.at_sleep _ _ _) (L.active_sleep _ _ _)

theorem due_timeout_of_ne (hj : j ≠ i) : due event L (L.timeout s i) j = due event L s j := by
  apply due_congr (L.at_timeout_of_ne _ _ _ hj)
  rw [L.active_timeout, if_neg (by simp [hj])]

theorem due_timeout_of_eq (h : (eventApiNewTimer (event i)).again = 0)
    : due event L (L.timeout s i) i = none := by
  apply if_neg
  rw [L.active_timeout, if_pos ⟨rfl, h⟩]
  simp

theorem due_timeout_of_pos {d : ℚ} (hpos : 0 < (eventApiNewTimer (event i)).again)
    (hd : due event L s i = some d) (hnow : d ≤ L.evNow s)
    : ∃ d', due event L (L.timeout s i) i = some d' ∧ d + (eventApiNewTimer (event i)).again ≤ d'
        ∧ d' ≤ L.evNow s + (eventApiNewTimer (event i)).again := by
  obtain rfl := due_eq_some hd
  have hactive : L.evIsActive (L.timeout s i) i = L.evIsActive s i := by
    rw [L.active_timeout, if_neg fun h => ne_of_gt hpos h.2]
  obtain ⟨hlow, hhigh⟩ := L.at_timeout_of_pos s i hpos hnow
  refine ⟨L.evAt (L.timeout s i) i, ?_, hlow, hhigh⟩
  unfold due at hd ⊢
  rw [hactive]
  split
  . rfl
  . next hnot =>
    rw [if_neg hnot] at hd
    contradiction

end

end EvTimers

structure EvKeeps (L : LibevTimers σ fun i => eventApiNewTimer (event i)) (m : EvTimers σ)
    (t : Timer.State Nat ℚ) : Prop where
  el : ∀ i, (event i).type = .time → (m.state.el i = true ↔ (t i).isSome = true)
  log : ∀ i l, t i = some l → (event i).type = .time ∧ (Again event i → 0 < (event i).id)
    ∧ l.time ≤ L.evNow m.state.loop
  due : ∀ i d, EvTimers.due event L m.state.loop i = some d → ∃ l, t i = some l
    ∧ l.due + (eventApiNewTimer (event i)).after ≤ d ∧ d ≤ l.time + (eventApiNewTimer (event i)).after
    ∧ (¬Again event i → l.runs = 0)
  has : ∀ i l, t i = some l → Again event i → ∃ d, EvTimers.due event L m.state.loop i = some d

variable {m : EvTimers σ} {t : Timer.State Nat ℚ} {i : Nat}

theorem evKeeps_new : EvKeeps L (EvTimers.new event L) fun _ => none where
  el _ _ := by simp [EvTimers.new, LibevState.new]
  log _ _ h := by contradiction
  due i d h := by
    change EvTimers.due event L L.EV_DEFAULT i = some d at h
    rw [EvTimers.due_default] at h
    contradiction
  has _ _ h := by contradiction

theorem EvKeeps.of_eq (h : EvKeeps L m t) {s : LibevState σ} {pc : EvPc}
    (hel : ∀ j, (event j).type = .time → s.el j = m.state.el j)
    (hdue : ∀ j, EvTimers.due event L s.loop j = EvTimers.due event L m.state.loop j)
    (hnow : L.evNow m.state.loop ≤ L.evNow s.loop)
    : EvKeeps L ⟨s, pc⟩ t where
  el j hj := by
    rw [← h.el j hj, ← hel j hj]
  log j l hl := by
    obtain ⟨htype, hpos, htime⟩ := h.log j l hl
    exact ⟨htype, hpos, le_trans htime hnow⟩
  due j d hd := by
    rw [hdue] at hd
    exact h.due j d hd
  has j l hl hagain := by
    rw [hdue]
    exact h.has j l hl hagain

theorem EvKeeps.due_eq_none (h : EvKeeps L m t) (htype : (event i).type = .time)
    (hel : m.state.el i = false)
    : EvTimers.due event L m.state.loop i = none := by
  cases hdue : EvTimers.due event L m.state.loop i with
  | none => rfl
  | some d =>
    obtain ⟨l, hl, -⟩ := h.due i d hdue
    have := (h.el i htype).mpr (by rw [hl]; rfl)
    rw [hel] at this
    contradiction

theorem EvKeeps.add (h : EvKeeps L m t) (htype : (event i).type = .time) (hel : m.state.el i = false)
    (hpos : Again event i → 0 < (event i).id)
    (hwhole : L.evAt m.state.loop i = (eventApiNewTimer (event i)).after)
    : EvKeeps L { m with
        state := ⟨L.evTypeStart (event i).type m.state.loop i, Function.update m.state.el i true⟩ }
        (t.next (.add i (L.evNow m.state.loop))) := by
  have hnone := h.due_eq_none htype hel
  have hdue : ∀ j, EvTimers.due event L (L.evTypeStart (event i).type m.state.loop i) j
      = if j = i then some (L.evNow m.state.loop + (eventApiNewTimer (event i)).after)
        else EvTimers.due event L m.state.loop j := by
    intro j
    split
    . next heq => rw [heq, htype, EvTimers.due_start_self htype hnone, hwhole]
    . next hne => exact EvTimers.due_start_of_ne _ hne
  constructor
  case el =>
    intro j hj
    rw [Timer.State.next]
    dsimp only
    by_cases heq : j = i
    . simp [heq]
    . rw [Function.update_of_ne heq, Function.update_of_ne heq]
      exact h.el j hj
  case log =>
    intro j l hl
    rw [Timer.State.next] at hl
    rw [L.now_start]
    by_cases heq : j = i
    . rw [heq, Function.update_self, Option.some.injEq] at hl
      subst hl
      rw [heq]
      exact ⟨htype, hpos, le_refl _⟩
    . rw [Function.update_of_ne heq] at hl
      exact h.log j l hl
  case due =>
    intro j d hd
    dsimp only at hd
    rw [hdue] at hd
    rw [Timer.State.next]
    by_cases heq : j = i
    . rw [if_pos heq, Option.some.injEq] at hd
      rw [heq, Function.update_self]
      exact ⟨_, rfl, le_of_eq hd, le_of_eq hd.symm, fun _ => rfl⟩
    . rw [if_neg heq] at hd
      rw [Function.update_of_ne heq]
      exact h.due j d hd
  case has =>
    intro j l hl hagain
    dsimp only
    rw [hdue]
    rw [Timer.State.next] at hl
    by_cases heq : j = i
    . rw [if_pos heq]
      exact ⟨_, rfl⟩
    . rw [Function.update_of_ne heq] at hl
      rw [if_neg heq]
      exact h.has j l hl hagain

theorem EvKeeps.del (h : EvKeeps L m t) (i : Nat)
    : EvKeeps L { m with
        state := ⟨L.evTypeStop (event i).type m.state.loop i, Function.update m.state.el i false⟩ }
        (t.next (.del i)) := by
  have hdue : ∀ j, EvTimers.due event L (L.evTypeStop (event i).type m.state.loop i) j
      = if j = i then none else EvTimers.due event L m.state.loop j := by
    intro j
    split
    . next heq => rw [heq, EvTimers.due_stop_self]
    . next hne => exact EvTimers.due_stop_of_ne _ hne
  constructor
  case el =>
    intro j hj
    rw [Timer.State.next]
    dsimp only
    by_cases heq : j = i
    . simp [heq]
    . rw [Function.update_of_ne heq, Function.update_of_ne heq]
      exact h.el j hj
  case log =>
    intro j l hl
    rw [Timer.State.next] at hl
    rw [L.now_stop]
    by_cases heq : j = i
    . rw [heq, Function.update_self] at hl
      contradiction
    . rw [Function.update_of_ne heq] at hl
      exact h.log j l hl
  case due =>
    intro j d hd
    dsimp only at hd
    rw [hdue] at hd
    rw [Timer.State.next]
    by_cases heq : j = i
    . rw [if_pos heq] at hd
      contradiction
    . rw [if_neg heq] at hd
      rw [Function.update_of_ne heq]
      exact h.due j d hd
  case has =>
    intro j l hl hagain
    dsimp only
    rw [hdue]
    rw [Timer.State.next] at hl
    by_cases heq : j = i
    . rw [heq, Function.update_self] at hl
      contradiction
    . rw [Function.update_of_ne heq] at hl
      rw [if_neg heq]
      exact h.has j l hl hagain

theorem EvKeeps.eventAdd (h : EvKeeps L m t) (o : Outcome)
    (hwhole : EvTimers.Whole event L m (.eventAdd i o))
    : (timerSpec event fun ms => (ms : ℚ) / MILLISECOND_UNIT_F).Keeps (EvKeeps L) t
        (EvTimers.step event L m (.eventAdd i o)) := by
  unfold EvTimers.step
  dsimp only
  split
  . cases hel : m.state.el i with
    | true =>
      rw [if_neg (by simp), eventAdd_of_el hel]
      exact h
    | false =>
      rw [libev_eventAdd _ _ _ hel]
      by_cases htype : (event i).type = .time
      . rw [if_pos ⟨htype, rfl⟩]
        obtain ⟨hpos, hat⟩ := hwhole htype hel
        exact ⟨trivial, h.add htype hel hpos hat⟩
      . rw [if_neg (by simp [htype])]
        apply h.of_eq
        case hel =>
          intro j hj
          apply Function.update_of_ne
          rintro rfl
          exact htype hj
        case hdue =>
          intro j
          dsimp only
          by_cases hj : j = i
          . rw [hj, EvTimers.due_of_not_time htype, EvTimers.due_of_not_time htype]
          . exact EvTimers.due_start_of_ne _ hj
        case hnow =>
          dsimp only
          rw [L.now_start]
  . exact h

theorem EvKeeps.eventDel (h : EvKeeps L m t)
    : (timerSpec event fun ms => (ms : ℚ) / MILLISECOND_UNIT_F).Keeps (EvKeeps L) t
        (EvTimers.step event L m (.eventDel i)) := by
  unfold EvTimers.step
  dsimp only
  split
  . cases hel : m.state.el i with
    | false =>
      rw [if_neg (by simp), eventDel_of_el hel]
      exact h
    | true =>
      rw [libev_eventDel _ _ hel]
      by_cases htype : (event i).type = .time
      . rw [if_pos ⟨htype, rfl⟩]
        exact ⟨trivial, h.del i⟩
      . rw [if_neg (by simp [htype])]
        apply h.of_eq
        case hel =>
          intro j hj
          apply Function.update_of_ne
          rintro rfl
          exact htype hj
        case hdue =>
          intro j
          dsimp only
          by_cases hj : j = i
          . rw [hj, EvTimers.due_of_not_time htype, EvTimers.due_of_not_time htype]
          . exact EvTimers.due_stop_of_ne _ hj
        case hnow =>
          dsimp only
          rw [L.now_stop]
  . exact h

theorem EvKeeps.timeout (h : EvKeeps L m t) {d : ℚ} (hd : EvTimers.due event L m.state.loop i = some d)
    (hnow : d ≤ L.evNow m.state.loop) (begun : ℚ)
    : (timerSpec event fun ms => (ms : ℚ) / MILLISECOND_UNIT_F).Allowed t
          (.run i d (L.evNow m.state.loop))
        ∧ EvKeeps L ⟨{ m.state with loop := L.timeout m.state.loop i }, .callback begun i⟩
            (t.next (.run i d (L.evNow m.state.loop))) := by
  obtain ⟨l, hl, hlow, hhigh, hruns⟩ := h.due i d hd
  obtain ⟨htype, hpos, htime⟩ := h.log i l hl
  have hnext : t.next (.run i d (L.evNow m.state.loop)) i
      = some ⟨l.runs + 1, true, d, L.evNow m.state.loop⟩ := by
    rw [Timer.State.next, Function.update_self, hl, Option.map_some]
  have hother : ∀ j, j ≠ i → t.next (.run i d (L.evNow m.state.loop)) j = t j :=
    fun j hj => Function.update_of_ne hj _ _
  constructor
  . refine ⟨l, hl, hlow, hhigh, hnow, fun hagain => hruns ?_⟩
    unfold Again
    simpa [timerSpec] using hagain
  . constructor
    case el =>
      intro j hj
      refine (h.el j hj).trans ?_
      by_cases heq : j = i
      . rw [heq, hnext, hl]
        exact Iff.rfl
      . rw [hother j heq]
    case log =>
      intro j l' hl'
      dsimp only
      rw [L.now_timeout]
      by_cases heq : j = i
      . rw [heq, hnext, Option.some.injEq] at hl'
        subst hl'
        rw [heq]
        exact ⟨htype, hpos, le_refl _⟩
      . rw [hother j heq] at hl'
        exact h.log j l' hl'
    case due =>
      intro j d' hd'
      dsimp only at hd'
      by_cases heq : j = i
      . rw [heq] at hd' ⊢
        by_cases hagain : Again event i
        . have hinterval := again_of_again hagain
          have hafter := after_pos (hpos hagain)
          obtain ⟨d₁, hd₁, hlow', hhigh'⟩ := EvTimers.due_timeout_of_pos
            (by rw [hinterval]; exact hafter) hd hnow
          rw [hd₁, Option.some.injEq] at hd'
          subst hd'
          rw [hinterval] at hlow' hhigh'
          exact ⟨_, hnext, hlow', hhigh', fun hnot => absurd hagain hnot⟩
        . rw [EvTimers.due_timeout_of_eq (again_of_once hagain)] at hd'
          contradiction
      . rw [EvTimers.due_timeout_of_ne heq] at hd'
        rw [hother j heq]
        exact h.due j d' hd'
    case has =>
      intro j l' hl' hagain
      dsimp only
      by_cases heq : j = i
      . rw [heq] at hagain ⊢
        have hafter := after_pos (hpos hagain)
        obtain ⟨d₁, hd₁, -⟩ := EvTimers.due_timeout_of_pos
          (by rw [again_of_again hagain]; exact hafter) hd hnow
        exact ⟨d₁, hd₁⟩
      . rw [hother j heq] at hl'
        rw [EvTimers.due_timeout_of_ne heq]
        exact h.has j l' hl' hagain

theorem EvKeeps.done (h : EvKeeps L m t) (i : Nat) (pc : EvPc)
    : EvKeeps L { m with pc := pc } (t.next (.done i (L.evNow m.state.loop))) := by
  -- Only the time of the last run can have changed, and it is not earlier.
  have hlog : ∀ j l, t j = some l → ∃ l', t.next (.done i (L.evNow m.state.loop)) j = some l'
      ∧ l'.runs = l.runs ∧ l'.due = l.due ∧ l.time ≤ l'.time := by
    intro j l hl
    refine ⟨_, (t.next_done_eq_some_iff i j _ _).mpr ⟨l, hl, rfl⟩, ?_⟩
    split
    . obtain ⟨hruns, hdue, htime | htime⟩ := l.done_eq (L.evNow m.state.loop)
      . exact ⟨hruns, hdue, le_of_eq htime.symm⟩
      . refine ⟨hruns, hdue, ?_⟩
        rw [htime]
        exact (h.log j l hl).2.2
    . exact ⟨rfl, rfl, le_refl _⟩
  constructor
  case el =>
    intro j hj
    rw [Timer.State.isSome_next_done]
    exact h.el j hj
  case log =>
    intro j l' hl'
    obtain ⟨l, hl, rfl⟩ := (t.next_done_eq_some_iff i j _ l').mp hl'
    obtain ⟨htype, hpos, htime⟩ := h.log j l hl
    refine ⟨htype, hpos, ?_⟩
    split
    . obtain ⟨-, -, htime' | htime'⟩ := l.done_eq (L.evNow m.state.loop)
      . rw [htime']
        exact htime
      . rw [htime']
    . exact htime
  case due =>
    intro j d hd
    obtain ⟨l, hl, hlow, hhigh, hruns⟩ := h.due j d hd
    obtain ⟨l', hl', hruns', hdue', htime'⟩ := hlog j l hl
    refine ⟨l', hl', ?_, ?_, ?_⟩
    . rw [hdue']
      exact hlow
    . linarith
    . rw [hruns']
      exact hruns
  case has =>
    intro j l' hl' hagain
    obtain ⟨l, hl, -⟩ := (t.next_done_eq_some_iff i j _ l').mp hl'
    exact h.has j l hl hagain

theorem EvKeeps.pass (h : EvKeeps L m t) {begun : ℚ}
    (hcomplete : ∀ i d, EvTimers.due event L m.state.loop i = some d → begun ≤ d)
    : (timerSpec event fun ms => (ms : ℚ) / MILLISECOND_UNIT_F).Allowed t (.pass begun) := by
  intro i l hl hagain
  have hagain' : Again event i := by
    unfold Again
    simpa [timerSpec] using hagain
  obtain ⟨d, hd⟩ := h.has i l hl hagain'
  obtain ⟨l', hl', -, hhigh, -⟩ := h.due i d hd
  rw [hl, Option.some.injEq] at hl'
  subst hl'
  exact le_trans (hcomplete i d hd) hhigh

theorem EvKeeps.step (h : EvKeeps L m t) {a : EvAct} (hwhole : EvTimers.Whole event L m a)
    (hcomplete : EvTimers.Complete event L m a)
    : (timerSpec event fun ms => (ms : ℚ) / MILLISECOND_UNIT_F).Keeps (EvKeeps L) t
        (EvTimers.step event L m a) := by
  cases a with
  | eventAdd i o => exact h.eventAdd o hwhole
  | eventDel i => exact h.eventDel
  | sleep now =>
    unfold EvTimers.step
    dsimp only
    split
    . apply h.of_eq
      case hel => exact fun _ _ => rfl
      case hdue => exact fun _ => EvTimers.due_sleep _
      case hnow =>
        dsimp only
        rw [L.now_sleep]
        exact le_max_left _ _
    . exact h
  | evRun =>
    unfold EvTimers.step
    dsimp only
    split
    . exact h.of_eq (fun _ _ => rfl) (fun _ => rfl) (le_refl _)
    . exact h
  | timeout i =>
    unfold EvTimers.step
    dsimp only
    split
    . next begun d hpc hd =>
      split
      . next hnow => exact h.timeout hd hnow begun
      . exact h
    . exact h
  | done =>
    unfold EvTimers.step
    dsimp only
    split
    . next begun i hpc => exact ⟨trivial, h.done i _⟩
    . exact h
  | pass =>
    unfold EvTimers.step
    dsimp only
    split
    . next begun hpc =>
      exact ⟨h.pass (hcomplete begun hpc), h.of_eq (fun _ _ => rfl) (fun _ => rfl) (le_refl _)⟩
    . exact h

namespace EvTimers

def added (is : List Nat) : EvAct → List Nat
  | .eventAdd i _ => i :: is
  | _ => is

/--
The interval of a timer that is to be called again is positive. No timer is added again once some of its interval has
passed, since libev would go on with the rest of it.
-/
def Begins (event : Nat → Event) (L : LibevTimers σ fun i => eventApiNewTimer (event i))
    (w : EvTimers σ × List Nat)
    : EvAct → Prop
  | .eventAdd i _ => (event i).type = .time → w.1.state.el i = false
    → (Again event i → 0 < (event i).id)
      ∧ (i ∉ w.2 ∨ L.evAt w.1.state.loop i = (eventApiNewTimer (event i)).after)
  | _ => True

def Initial (L : LibevTimers σ fun i => eventApiNewTimer (event i)) (m : EvTimers σ) (is : List Nat) : Prop :=
  ∀ i, i ∉ is → L.evIsActive m.state.loop i = false
    ∧ L.evAt m.state.loop i = (eventApiNewTimer (event i)).after

variable {is : List Nat}

theorem initial_new : Initial L (.new event L) [] :=
  fun _ _ => ⟨L.active_default _, L.at_default _⟩

theorem Initial.step (h : Initial L m is) (a : EvAct) : Initial L (EvTimers.step event L m a).1 (added is a) := by
  cases a with
  | eventAdd i o =>
    have hmem : Initial L m (added is (.eventAdd i o)) := fun j hj => h j (List.not_mem_of_not_mem_cons hj)
    unfold EvTimers.step
    dsimp only
    split
    . cases hel : m.state.el i with
      | true =>
        rw [eventAdd_of_el hel]
        exact hmem
      | false =>
        rw [libev_eventAdd _ _ _ hel]
        intro j hj
        obtain ⟨hactive, hat⟩ := hmem j hj
        have hne : j ≠ i := List.ne_of_not_mem_cons hj
        exact ⟨by simp [L.active_start, hactive, hne], by rw [L.at_start, if_neg (by simp [hne]), hat]⟩
    . exact hmem
  | eventDel i =>
    unfold EvTimers.step
    dsimp only
    split
    . cases hel : m.state.el i with
      | false =>
        rw [eventDel_of_el hel]
        exact h
      | true =>
        rw [libev_eventDel _ _ hel]
        intro j hj
        obtain ⟨hactive, hat⟩ := h j hj
        refine ⟨by simp [L.active_stop, hactive], ?_⟩
        dsimp only
        rw [L.at_stop, if_neg, hat]
        rintro ⟨-, rfl, hactive'⟩
        rw [hactive] at hactive'
        contradiction
    . exact h
  | sleep t =>
    unfold EvTimers.step
    dsimp only
    split
    . intro j hj
      obtain ⟨hactive, hat⟩ := h j hj
      exact ⟨by rw [L.active_sleep, hactive], by rw [L.at_sleep, hat]⟩
    . exact h
  | timeout i =>
    unfold EvTimers.step
    dsimp only
    split
    . next begun d hpc hd =>
      split
      . intro j hj
        obtain ⟨hactive, hat⟩ := h j hj
        -- The timer that is due is active.
        have hne : j ≠ i := by
          rintro rfl
          rw [due, hactive] at hd
          simp at hd
        exact ⟨by rw [L.active_timeout, if_neg (by simp [hne]), hactive], by rw [L.at_timeout_of_ne _ _ _ hne, hat]⟩
      . exact h
    . exact h
  | evRun =>
    unfold EvTimers.step
    dsimp only
    split
    . exact h
    . exact h
  | done =>
    unfold EvTimers.step
    dsimp only
    split
    . exact h
    . exact h
  | pass =>
    unfold EvTimers.step
    dsimp only
    split
    . exact h
    . exact h

theorem Initial.whole (h : Initial L m is) {a : EvAct} (ha : Begins event L (m, is) a) : Whole event L m a := by
  cases a with
  | eventAdd i o =>
    intro htype hel
    obtain ⟨hpos, hfirst⟩ := ha htype hel
    refine ⟨hpos, ?_⟩
    rcases hfirst with hfirst | hat
    . exact (h i hfirst).2
    . exact hat
  | _ => trivial

end EvTimers

end

/--
Both loops do with the timers what they are made for, ae only if the handlers of those that are to be called
once delete them, and libev only if no timer is added again once some of its interval has passed.
-/
theorem timers_alike (event : Nat → Event)
    : (∀ setsize clock acts,
        Run.Along (Timer.next (AeTimers.step event)) (Deletes event) (.new event setsize clock) acts
          → (timerSpec event fun ms => ms).Accepts (fun _ => none)
            (Timer.trace (AeTimers.step event) (.new event setsize clock) acts))
      ∧ ∀ (σ : Type) (L : LibevTimers σ fun i => eventApiNewTimer (event i)) acts,
        Run.Along (Run.watched (Timer.next (EvTimers.step event L)) EvTimers.added)
            (fun w a => EvTimers.Begins event L w a ∧ EvTimers.Complete event L w.1 a) (.new event L, []) acts
          → (timerSpec event fun ms => (ms : ℚ) / MILLISECOND_UNIT_F).Accepts (fun _ => none)
            (Timer.trace (EvTimers.step event L) (.new event L) acts) := by
  constructor
  . intro setsize clock acts h
    exact Timer.Spec.accepts_trace (fun _ _ _ hkeeps ha => hkeeps.step ha)
      (aeKeeps_new event setsize clock) h
  . intro σ L acts h
    have hwhole : Run.Along (Timer.next (EvTimers.step event L))
        (fun m a => EvTimers.Whole event L m a ∧ EvTimers.Complete event L m a) (.new event L) acts := by
      apply h.of_watched (I := EvTimers.Initial L) _ _ EvTimers.initial_new
      . intro m is a m' hinitial heq
        rw [← Except.ok.inj heq]
        exact hinitial.step a
      . exact fun m is a hinitial ha => ⟨hinitial.whole ha.1, ha.2⟩
    exact Timer.Spec.accepts_trace (fun _ _ _ hkeeps ha => hkeeps.step ha.1 ha.2) evKeeps_new hwhole

def onces (_ : Nat) : Event :=
  NEW_EVENT_ONCE 1000

structure Watchers where
  active : List Nat
  now : ℚ
  evAt : Nat → ℚ

/-- The timers as libev keeps them. A timer that is late is not called for each interval it has missed. -/
def watchers (w : Nat → EvTimer) : LibevTimers Watchers w where
  EV_DEFAULT := ⟨[], 0, fun i => (w i).after⟩
  evTypeStart type s i := { s with
    active := i :: s.active
    evAt := fun j =>
      if type = .time ∧ j = i ∧ s.active.contains i = false then s.now + s.evAt i else s.evAt j }
  evTypeStop type s i := { s with
    active := s.active.filter (· != i)
    evAt := fun j =>
      if type = .time ∧ j = i ∧ s.active.contains i = true then s.evAt i - s.now else s.evAt j }
  evIsActive s i := s.active.contains i
  active_default _ := rfl
  active_start _ s i j := by
    rw [List.contains_cons, Bool.or_comm]
  active_stop _ s i j := by
    rw [Bool.eq_iff_iff]
    simp
  evNow s := s.now
  evAt s i := s.evAt i
  sleep s t := { s with now := max s.now t }
  timeout s i := { s with
    active := if (w i).again = 0 then s.active.filter (· != i) else s.active
    evAt := Function.update s.evAt i
      (if (w i).again = 0 then s.evAt i - s.now else max (s.evAt i + (w i).again) s.now) }
  at_default _ := rfl
  at_start _ _ _ _ := rfl
  at_stop _ _ _ _ := rfl
  at_sleep _ _ _ := rfl
  at_timeout_of_ne _ _ _ h := Function.update_of_ne h _ _
  at_timeout_of_eq s i h := by simp [h]
  at_timeout_of_pos s i hpos hnow := by
    simp only [Function.update_self, if_neg (ne_of_gt hpos)]
    exact ⟨le_max_left _ _, max_le (by linarith) (by linarith)⟩
  active_sleep _ _ _ := rfl
  active_timeout s i j := by
    by_cases h : (w i).again = 0
    . rw [Bool.eq_iff_iff]
      by_cases hj : j = i
      . simp [h, hj]
      . simp [h, hj]
    . simp [h]
  now_start _ _ _ := rfl
  now_stop _ _ _ := rfl
  now_sleep _ _ := rfl
  now_timeout _ _ := rfl

theorem timers_alike_once
    : (timerSpec onces fun ms => ms).Accepts (fun _ => none)
          (Timer.trace (AeTimers.step onces) (.new onces 1024 0)
            [.eventAdd 0 {}, .tick 1000, .processTimeEvents, .iterate, .eventDel 0, .done, .iterate])
      ∧ (timerSpec onces fun ms => (ms : ℚ) / MILLISECOND_UNIT_F).Accepts (fun _ => none)
          (Timer.trace (EvTimers.step onces (watchers fun i => eventApiNewTimer (onces i)))
            (.new onces (watchers fun i => eventApiNewTimer (onces i)))
            [.eventAdd 0 {}, .sleep 1, .evRun, .timeout 0, .done]) := by
  constructor
  . apply (timers_alike onces).1
    refine ⟨fun _ hagain => absurd rfl hagain, ?_⟩
    rintro _ ⟨⟩
    refine ⟨trivial, ?_⟩
    rintro _ ⟨⟩
    refine ⟨trivial, ?_⟩
    rintro _ ⟨⟩
    refine ⟨trivial, ?_⟩
    rintro _ ⟨⟩
    refine ⟨?_, ?_⟩
    . intro _ _ te hte _
      rw [List.mem_singleton.mp (show te ∈ [⟨0, 1000, 0⟩] from hte)]
      exact iff_of_true rfl rfl
    . rintro _ ⟨⟩
      refine ⟨?_, ?_⟩
      . refine fun _ => .inl fun te hte => ?_
        rw [List.mem_singleton.mp (show te ∈ [⟨-1, 1000, 0⟩] from hte)]
        decide
      . rintro _ ⟨⟩
        refine ⟨trivial, ?_⟩
        rintro _ ⟨⟩
        trivial
  . apply (timers_alike onces).2
    refine ⟨⟨fun _ _ => ⟨fun hagain => absurd rfl hagain, .inl (by simp)⟩, trivial⟩, ?_⟩
    rintro _ ⟨⟩
    refine ⟨⟨trivial, trivial⟩, ?_⟩
    rintro _ ⟨⟩
    refine ⟨⟨trivial, trivial⟩, ?_⟩
    rintro _ ⟨⟩
    refine ⟨⟨trivial, trivial⟩, ?_⟩
    rintro _ ⟨⟩
    refine ⟨⟨trivial, trivial⟩, ?_⟩
    rintro _ ⟨⟩
    trivial

-- The handler does nothing, and is called again a second later.
theorem once_called_twice
    : ¬(timerSpec onces fun ms => ms).Accepts (fun _ => none)
        (Timer.trace (AeTimers.step onces) (.new onces 1024 0)
          [.eventAdd 0 {}, .tick 1000, .processTimeEvents, .iterate, .done, .iterate, .tick 1000,
            .processTimeEvents, .iterate]) := by
  intro h
  have hle := h.countP_isRun_le (i := 0) rfl
  revert hle
  decide

-- libev goes on with the half second that is left.
example
    : ¬(timerSpec onces fun ms => (ms : ℚ) / MILLISECOND_UNIT_F).Accepts (fun _ => none)
        (Timer.trace (EvTimers.step onces (watchers fun i => eventApiNewTimer (onces i)))
          (.new onces (watchers fun i => eventApiNewTimer (onces i)))
          [.eventAdd 0 {}, .sleep (1 / 2), .eventDel 0, .eventAdd 0 {}, .sleep 1, .evRun, .timeout 0]) := by
  intro h
  have htrace : Timer.trace (EvTimers.step onces (watchers fun i => eventApiNewTimer (onces i)))
      (.new onces (watchers fun i => eventApiNewTimer (onces i)))
      [.eventAdd 0 {}, .sleep (1 / 2), .eventDel 0, .eventAdd 0 {}, .sleep 1, .evRun, .timeout 0]
        = [.add 0 0, .del 0, .add 0 (1 / 2), .run 0 1 1] := by
    decide +kernel
  rw [htrace] at h
  obtain ⟨-, -, -, ⟨l, hl, hlow, -⟩, -⟩ := h
  obtain rfl := Option.some.inj hl
  norm_num [timerSpec, onces, NEW_EVENT_ONCE, MILLISECOND_UNIT_F] at hlow

end Xsocks.Ev
