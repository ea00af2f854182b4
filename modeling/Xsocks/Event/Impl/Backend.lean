import Xsocks.Event.Impl.Event

/-!
This module contains `eventAdd` and `eventDel` over any backend, and the backends `event_ae.h` and
`event_libev.h`.
-/

namespace Xsocks.Ev

open Ae

def EVENT_FLAG_TIME_ONCE : Int := 0
def EVENT_FLAG_TIME_REPEAT : Int := 1

def NEW_EVENT_READ (fd : Int) : Event :=
  ⟨fd, .io, EVENT_FLAG_READ⟩

def NEW_EVENT_WRITE (fd : Int) : Event :=
  ⟨fd, .io, EVENT_FLAG_WRITE⟩

def NEW_EVENT_ONCE (timeout : Int) : Event :=
  ⟨timeout, .time, EVENT_FLAG_TIME_ONCE⟩

def NEW_EVENT_REPEAT (timeout : Int) : Event :=
  ⟨timeout, .time, EVENT_FLAG_TIME_REPEAT⟩

def NEW_EVENT_SIGNAL (signal : Int) : Event :=
  ⟨signal, .signal, 0⟩

inductive Made : Event → Prop where
  | read (fd : Int) : Made (NEW_EVENT_READ fd)
  | write (fd : Int) : Made (NEW_EVENT_WRITE fd)
  | once (timeout : Int) : Made (NEW_EVENT_ONCE timeout)
  | again (timeout : Int) : Made (NEW_EVENT_REPEAT timeout)
  | signal (signal : Int) : Made (NEW_EVENT_SIGNAL signal)

structure MadeEvents where
  event : Nat → Event
  made : ∀ i, Made (event i)

structure Backend (σ : Type) where
  /-- `e->el` is set. -/
  el : σ → Nat → Bool
  setEl : σ → Nat → Bool → σ
  eventApiAddEvent : σ → Nat → Outcome → Int × σ
  eventApiDelEvent : σ → Nat → σ
  unlink : σ → Nat → σ

namespace Backend

variable {σ : Type} (B : Backend σ)

def eventAdd (s : σ) (i : Nat) (o : Outcome) : Int × σ :=
  if B.el s i then (EVENT_OK, s)
  else
    let (r, s) := B.eventApiAddEvent (B.setEl s i true) i o
    if r = EVENT_ERR then (EVENT_ERR, s) else (EVENT_OK, s)

def eventDel (s : σ) (i : Nat) : σ :=
  if B.el s i then B.setEl (B.eventApiDelEvent s i) i false else s

def step (s : σ) : Op → σ
  | .add i o => (B.eventAdd s i o).2
  | .del i => B.eventDel s i
  | .unlink k => B.unlink s k

def next (s : σ) (op : Op) : Except Empty σ :=
  .ok (B.step s op)

end Backend

/-! # ae -/

/-- The state of `event_ae.h`, and whose registrations the ones of the descriptors are. -/
structure AeState where
  state : State
  /-- The event that was registered last for the descriptor with the flag. -/
  holder : Int × Int → Option Nat

def AeState.new (event : Nat → Event) (setsize : Int) : AeState where
  state := .new event setsize
  holder := fun _ => none

def ae (event : Nat → Event) : Backend AeState where
  el s i := (s.state.ctx i).el
  setEl s i el := { s with state := s.state.setEl i el }
  eventApiAddEvent s i o :=
    let e := event i
    let (r, state) := Ev.eventApiAddEvent event s.state i o
    (r, {
      state := state
      holder :=
        if e.type = .io ∧ r = EVENT_OK then Function.update s.holder (e.id, e.flags) (some i)
        else s.holder
    })
  eventApiDelEvent s i := { s with state := Ev.eventApiDelEvent event s.state i }
  unlink s k := { s with state := { s.state with loop := Ae.unlink s.state.loop k } }

/-! # libev -/

/-- What `event_libev.h` relies on from libev, with a watcher for each event. -/
structure Libev (σ : Type) where
  EV_DEFAULT : σ
  evTypeStart : EventType → σ → Nat → σ
  evTypeStop : EventType → σ → Nat → σ
  evIsActive : σ → Nat → Bool
  active_default : ∀ i, evIsActive EV_DEFAULT i = false
  active_start : ∀ type s i j, evIsActive (evTypeStart type s i) j = (evIsActive s j || j == i)
  active_stop : ∀ type s i j, evIsActive (evTypeStop type s i) j = (evIsActive s j && j != i)

structure LibevState (σ : Type) where
  loop : σ
  el : Nat → Bool

def LibevState.new {σ : Type} (L : Libev σ) : LibevState σ where
  loop := L.EV_DEFAULT
  el := fun _ => false

def libev {σ : Type} (L : Libev σ) (event : Nat → Event) : Backend (LibevState σ) where
  el s i := s.el i
  setEl s i el := { s with el := Function.update s.el i el }
  eventApiAddEvent s i _ :=
    match (event i).type with
    | .io => (EVENT_OK, { s with loop := L.evTypeStart .io s.loop i })
    | .time => (EVENT_OK, { s with loop := L.evTypeStart .time s.loop i })
    | .signal => (EVENT_OK, { s with loop := L.evTypeStart .signal s.loop i })
  eventApiDelEvent s i :=
    match (event i).type with
    | .io => { s with loop := L.evTypeStop .io s.loop i }
    | .time => { s with loop := L.evTypeStop .time s.loop i }
    | .signal => { s with loop := L.evTypeStop .signal s.loop i }
  unlink s _ := s

end Xsocks.Ev
