import Xsocks.Event.Impl.Backend
import Xsocks.Lib.Run

/-!
This module contains what `e->el` says about the registrations of a backend, and what a backend has to
do for it to be true. libev does it.
-/

namespace Xsocks.Ev

namespace Backend

variable {σ : Type} (B : Backend σ) (registered : σ → Nat → Prop)

def Matches (s : σ) : Prop :=
  ∀ i, B.el s i = true ↔ registered s i

/-- The state after the step matches, and the caller has been told what has become of the event. -/
def Booked (s : σ) : Op → Prop
  | .add i o =>
    B.Matches registered (B.eventAdd s i o).2
      ∧ ((B.eventAdd s i o).1 = EVENT_OK ∧ registered (B.eventAdd s i o).2 i
        ∨ (B.eventAdd s i o).1 = EVENT_ERR ∧ B.el (B.eventAdd s i o).2 i = false)
  | .del i =>
    B.Matches registered (B.eventDel s i)
      ∧ ∀ j, j ≠ i → registered s j → registered (B.eventDel s i) j
  | .unlink k => B.Matches registered (B.unlink s k)

structure Adds (s : σ) (i : Nat) (o : Outcome) : Prop where
  ok : (B.eventAdd s i o).1 = EVENT_OK
  el : ∀ j, B.el (B.eventAdd s i o).2 j = (B.el s j || j == i)
  registered : ∀ j, registered (B.eventAdd s i o).2 j ↔ registered s j ∨ j = i

structure Dels (s : σ) (i : Nat) : Prop where
  el : ∀ j, B.el (B.eventDel s i) j = (B.el s j && j != i)
  registered : ∀ j, registered (B.eventDel s i) j ↔ registered s j ∧ j ≠ i

end Backend

open Backend

section

variable {σ : Type} {B : Backend σ} {registered : σ → Nat → Prop} {s : σ} {i : Nat} {o : Outcome}

theorem eventAdd_of_el (h : B.el s i = true) : B.eventAdd s i o = (EVENT_OK, s) := by
  unfold Backend.eventAdd
  rw [if_pos h]

theorem eventDel_of_el (h : B.el s i = false) : B.eventDel s i = s := by
  unfold Backend.eventDel
  rw [h]
  rfl

theorem Backend.Matches.adds (hs : B.Matches registered s) (h : B.Adds registered s i o)
    : B.Booked registered s (.add i o) := by
  constructor
  . intro j
    rw [h.el, h.registered, ← hs j]
    simp
  . exact .inl ⟨h.ok, (h.registered i).mpr (.inr rfl)⟩

theorem Backend.Matches.add_of_el (hs : B.Matches registered s) (h : B.el s i = true)
    : B.Booked registered s (.add i o) := by
  unfold Booked
  dsimp only
  rw [eventAdd_of_el h]
  exact ⟨hs, .inl ⟨rfl, (hs i).mp h⟩⟩

theorem Backend.Matches.dels (hs : B.Matches registered s) (h : B.Dels registered s i)
    : B.Booked registered s (.del i) := by
  constructor
  . intro j
    rw [h.el, h.registered, ← hs j]
    simp
  . exact fun j hj hreg => (h.registered j).mpr ⟨hreg, hj⟩

theorem Backend.Matches.del_of_el (hs : B.Matches registered s) (h : B.el s i = false)
    : B.Booked registered s (.del i) := by
  unfold Booked
  dsimp only
  rw [eventDel_of_el h]
  exact ⟨hs, fun _ _ hreg => hreg⟩

theorem Backend.Matches.not_booked (hs : B.Matches registered s) (hel : B.el s i = false)
    (hnoted : B.el (B.eventAdd s i o).2 i = true)
    (hreg : registered (B.eventAdd s i o).2 i → registered s i)
    : ¬B.Booked registered s (.add i o) := by
  intro h
  have := (hs i).mpr (hreg ((h.1 i).mp hnoted))
  rw [hel] at this
  contradiction

theorem Backend.Booked.matches {op : Op} (h : B.Booked registered s op) : B.Matches registered (B.step s op) := by
  cases op with
  | add i o => exact h.1
  | del i => exact h.1
  | unlink k => exact h

end

/-! # libev -/

section

variable {σ : Type} (L : Libev σ) (event : Nat → Event)

def LibevState.Registered (s : LibevState σ) (i : Nat) : Prop :=
  L.evIsActive s.loop i = true

variable (s : LibevState σ) (i : Nat)

theorem libev_add (o : Outcome)
    : (libev L event).eventApiAddEvent s i o
        = (EVENT_OK, { s with loop := L.evTypeStart (event i).type s.loop i }) := by
  unfold libev
  dsimp only
  split
  . next htype => rw [htype]
  . next htype => rw [htype]
  . next htype => rw [htype]

theorem libev_del
    : (libev L event).eventApiDelEvent s i
        = { s with loop := L.evTypeStop (event i).type s.loop i } := by
  unfold libev
  dsimp only
  split
  . next htype => rw [htype]
  . next htype => rw [htype]
  . next htype => rw [htype]

variable {s i}

theorem libev_eventAdd (o : Outcome) (hel : s.el i = false)
    : (libev L event).eventAdd s i o
        = (EVENT_OK, ⟨L.evTypeStart (event i).type s.loop i, Function.update s.el i true⟩) := by
  unfold Backend.eventAdd
  rw [libev_add, if_neg (by simp [libev, hel])]
  rfl

theorem libev_eventDel (hel : s.el i = true)
    : (libev L event).eventDel s i
        = ⟨L.evTypeStop (event i).type s.loop i, Function.update s.el i false⟩ := by
  have hset : (libev L event).el s i = true := hel
  unfold Backend.eventDel
  rw [libev_del, if_pos hset]
  rfl

theorem libev_adds (o : Outcome) (hel : s.el i = false)
    : (libev L event).Adds (LibevState.Registered L) s i o := by
  have heq := libev_eventAdd L event o hel
  constructor
  case ok => rw [heq]
  case el =>
    intro j
    rw [heq]
    by_cases hj : j = i
    . simp [libev, hj]
    . simp [libev, hj]
  case registered =>
    intro j
    rw [heq]
    unfold LibevState.Registered
    simp [L.active_start]

theorem libev_dels (hel : s.el i = true) : (libev L event).Dels (LibevState.Registered L) s i := by
  have heq := libev_eventDel L event hel
  constructor
  case el =>
    intro j
    rw [heq]
    by_cases hj : j = i
    . simp [libev, hj]
    . simp [libev, hj]
  case registered =>
    intro j
    rw [heq]
    unfold LibevState.Registered
    simp [L.active_stop]

-- Each event has a watcher of its own, and starting it does not fail.
theorem libev_booked (h : (libev L event).Matches (LibevState.Registered L) s) (op : Op)
    : (libev L event).Booked (LibevState.Registered L) s op := by
  cases op with
  | unlink k => exact h
  | add i o =>
    cases hel : s.el i with
    | true => exact h.add_of_el hel
    | false => exact h.adds (libev_adds L event o hel)
  | del i =>
    cases hel : s.el i with
    | true => exact h.dels (libev_dels L event hel)
    | false => exact h.del_of_el hel

theorem libev_new : (libev L event).Matches (LibevState.Registered L) (.new L) := by
  intro i
  unfold LibevState.Registered
  rw [LibevState.new, L.active_default]
  simp [libev]

theorem libev_along (ops : List Op)
    : Run.Along (libev L event).next ((libev L event).Booked (LibevState.Registered L)) (.new L) ops := by
  have hall : Run.Along (libev L event).next (fun _ _ => True) (.new L) ops := Run.along_true _ _ _
  refine hall.of_invariant (I := (libev L event).Matches (LibevState.Registered L)) ?_ ?_
    (libev_new L event)
  . intro s op s' hs _ heq
    cases heq
    exact (libev_booked L event hs op).matches
  . exact fun s op hs _ => libev_booked L event hs op

end

end Xsocks.Ev
