import Mathlib.Data.Rat.Defs
import Mathlib.Algebra.Order.Ring.Rat
import Xsocks.Event.Impl.Backend
import Xsocks.Lib.Timer

/-!
This module contains `processTimeEvents` of `deps/redis/ae.c` with the handler `eventTimeHandler` of
`event_ae.h`, and the timers of `event_libev.h`. A handler adds and deletes events while it is running.
-/

namespace Xsocks.Ev

open Ae

/-! # ae -/

def AE_NOMORE : Int := -1

/-- What is returned after the handler of the event has been called. -/
def eventTimeHandler (e : Event) : Int :=
  if EVENT_FLAG_TIME_ONCE ≠ 0 then AE_NOMORE else e.id

inductive AePc where
  | idle
  /-- The last `n` entries of the list are left. -/
  | iterate (maxId : Int) (n : Nat)
  /-- `timeProc` has been called for the event `i` with the entry before the last `n` ones. -/
  | timeProc (maxId : Int) (n : Nat) (id : Int) (i : Nat) (retval : Int)

structure AeTimers where
  state : State
  lastTime : Int
  clock : Int
  /-- The time at which `processTimeEvents` was called. -/
  begun : Int
  pc : AePc

inductive AeAct where
  | eventAdd (i : Nat) (o : Outcome)
  | eventDel (i : Nat)
  | tick (ms : Nat)
  | processTimeEvents
  | iterate
  | done

def AePc.inHandler : AePc → Bool
  | .iterate .. => false
  | _ => true

namespace AeTimers

def new (event : Nat → Event) (setsize : Int) (clock : Int) : AeTimers where
  state := .new event setsize
  lastTime := clock / 1000
  clock := clock
  begun := clock
  pc := .idle

def timeEventHead (m : AeTimers) : List TimeEvent :=
  m.state.loop.timeEventHead

def setHead (m : AeTimers) (tes : List TimeEvent) : AeTimers :=
  { m with state := { m.state with loop := { m.state.loop with timeEventHead := tes } } }

def processTimeEvents (m : AeTimers) : AeTimers :=
  let now := m.clock / 1000
  let m' :=
    if now < m.lastTime then m.setHead (m.timeEventHead.map fun te => { te with due := te.due % 1000 })
    else m
  { m' with
      lastTime := now
      begun := m.clock
      pc := .iterate (m.state.loop.timeEventNextId - 1) m.timeEventHead.length }

variable (event : Nat → Event)

/-- An iteration of `processTimeEvents`, up to the call of `timeProc`. -/
def iterate (m : AeTimers) (maxId : Int) : Nat → AeTimers × Option (Timer.Obs Nat Int)
  | 0 => ({ m with pc := .idle }, some (.pass m.begun))
  | n + 1 =>
    let k := m.timeEventHead.length - (n + 1)
    match m.timeEventHead[k]? with
    | none => ({ m with pc := .iterate maxId n }, none)
    | some te =>
      if te.id = AE_DELETED_EVENT_ID then
        ({ m with state := { m.state with loop := unlink m.state.loop k }, pc := .iterate maxId n }, none)
      else if te.id > maxId then ({ m with pc := .iterate maxId n }, none)
      else if te.due ≤ m.clock then
        ({ m with pc := .timeProc maxId n te.id te.clientData (eventTimeHandler (event te.clientData)) },
          some (.run te.clientData te.due m.clock))
      else ({ m with pc := .iterate maxId n }, none)

def done (m : AeTimers) (maxId : Int) (n : Nat) (i : Nat) (retval : Int)
    : AeTimers × Option (Timer.Obs Nat Int) :=
  let k := m.timeEventHead.length - (n + 1)
  let tes := m.timeEventHead.modify k fun te =>
    if retval ≠ AE_NOMORE then { te with due := m.clock + retval }
    else { te with id := AE_DELETED_EVENT_ID }
  ({ m.setHead tes with pc := .iterate maxId n }, some (.done i m.clock))

/-- A step, and what it does with the timers. Nothing happens if the step is not possible. -/
def step (m : AeTimers) : AeAct → AeTimers × Option (Timer.Obs Nat Int)
  | .eventAdd i o =>
    if m.pc.inHandler then
      ({ m with state := (eventAdd event m.state i { o with now := m.clock }).2 },
        if (event i).type = .time ∧ (m.state.ctx i).el = false then some (.add i m.clock) else none)
    else (m, none)
  | .eventDel i =>
    if m.pc.inHandler then
      ({ m with state := eventDel event m.state i },
        if (event i).type = .time ∧ (m.state.ctx i).el = true then some (.del i) else none)
    else (m, none)
  | .tick ms => ({ m with clock := m.clock + ms }, none)
  | .processTimeEvents =>
    match m.pc with
    | .idle => (m.processTimeEvents, none)
    | _ => (m, none)
  | .iterate =>
    match m.pc with
    | .iterate maxId n => iterate event m maxId n
    | _ => (m, none)
  | .done =>
    match m.pc with
    | .timeProc maxId n _ i retval => m.done maxId n i retval
    | _ => (m, none)

end AeTimers

/-! # libev -/

def MILLISECOND_UNIT_F : ℚ := 1000

structure EvTimer where
  after : ℚ
  /-- The argument `repeat`. -/
  again : ℚ

def eventApiNewTimer (e : Event) : EvTimer :=
  let time := e.id / MILLISECOND_UNIT_F
  { after := time, again := if e.flags = EVENT_FLAG_TIME_ONCE then 0 else time }

/--
What `event_libev.h` relies on from the timers of libev. It calls `ev_timer_init` once for each event, and then only
starts and stops its timer.
-/
structure LibevTimers (σ : Type) (w : Nat → EvTimer) extends Libev σ where
  evNow : σ → ℚ
  /-- The time at which a timer is due, or the time that is left if it is not active. -/
  evAt : σ → Nat → ℚ
  sleep : σ → ℚ → σ
  /-- A timer is due, and its callback is about to be called. -/
  timeout : σ → Nat → σ
  at_default : ∀ i, evAt EV_DEFAULT i = (w i).after
  /-- A timer that is started goes on with the time that is left. -/
  at_start : ∀ type s i j, evAt (evTypeStart type s i) j
    = if type = .time ∧ j = i ∧ evIsActive s i = false then evNow s + evAt s i else evAt s j
  at_stop : ∀ type s i j, evAt (evTypeStop type s i) j
    = if type = .time ∧ j = i ∧ evIsActive s i = true then evAt s i - evNow s else evAt s j
  at_sleep : ∀ s t i, evAt (sleep s t) i = evAt s i
  at_timeout_of_ne : ∀ s i j, j ≠ i → evAt (timeout s i) j = evAt s j
  at_timeout_of_eq : ∀ s i, (w i).again = 0 → evAt (timeout s i) i = evAt s i - evNow s
  at_timeout_of_pos : ∀ s i, 0 < (w i).again → evAt s i ≤ evNow s
    → evAt s i + (w i).again ≤ evAt (timeout s i) i ∧ evAt (timeout s i) i ≤ evNow s + (w i).again
  active_sleep : ∀ s t i, evIsActive (sleep s t) i = evIsActive s i
  active_timeout : ∀ s i j, evIsActive (timeout s i) j
    = if j = i ∧ (w i).again = 0 then false else evIsActive s j
  now_start : ∀ type s i, evNow (evTypeStart type s i) = evNow s
  now_stop : ∀ type s i, evNow (evTypeStop type s i) = evNow s
  now_sleep : ∀ s t, evNow (sleep s t) = max (evNow s) t
  now_timeout : ∀ s i, evNow (timeout s i) = evNow s

inductive EvPc where
  | idle
  | iterate (begun : ℚ)
  | callback (begun : ℚ) (i : Nat)

structure EvTimers (σ : Type) where
  state : LibevState σ
  pc : EvPc

inductive EvAct where
  | eventAdd (i : Nat) (o : Outcome)
  | eventDel (i : Nat)
  | sleep (t : ℚ)
  | evRun
  | timeout (i : Nat)
  | done
  | pass

def EvPc.inHandler : EvPc → Bool
  | .iterate .. => false
  | _ => true

namespace EvTimers

variable {σ : Type} (event : Nat → Event) (L : LibevTimers σ fun i => eventApiNewTimer (event i))

def new : EvTimers σ where
  state := .new L.toLibev
  pc := .idle

def due (s : σ) (i : Nat) : Option ℚ :=
  if (event i).type = .time ∧ L.evIsActive s i = true then some (L.evAt s i) else none

def step (m : EvTimers σ) : EvAct → EvTimers σ × Option (Timer.Obs Nat ℚ)
  | .eventAdd i o =>
    if m.pc.inHandler then
      ({ m with state := ((libev L.toLibev event).eventAdd m.state i o).2 },
        if (event i).type = .time ∧ m.state.el i = false then some (.add i (L.evNow m.state.loop))
        else none)
    else (m, none)
  | .eventDel i =>
    if m.pc.inHandler then
      ({ m with state := (libev L.toLibev event).eventDel m.state i },
        if (event i).type = .time ∧ m.state.el i = true then some (.del i) else none)
    else (m, none)
  | .sleep t =>
    match m.pc with
    | .idle => ({ m with state := { m.state with loop := L.sleep m.state.loop t } }, none)
    | _ => (m, none)
  | .evRun =>
    match m.pc with
    | .idle => ({ m with pc := .iterate (L.evNow m.state.loop) }, none)
    | _ => (m, none)
  | .timeout i =>
    match m.pc, due event L m.state.loop i with
    | .iterate begun, some d =>
      if d ≤ L.evNow m.state.loop then
        ({ state := { m.state with loop := L.timeout m.state.loop i }, pc := .callback begun i },
          some (.run i d (L.evNow m.state.loop)))
      else (m, none)
    | _, _ => (m, none)
  | .done =>
    match m.pc with
    | .callback begun i => ({ m with pc := .iterate begun }, some (.done i (L.evNow m.state.loop)))
    | _ => (m, none)
  | .pass =>
    match m.pc with
    | .iterate begun => ({ m with pc := .idle }, some (.pass begun))
    | _ => (m, none)

/-- `ev_run` ends an iteration when it has called the callbacks of all timers that were due. -/
def Complete (m : EvTimers σ) : EvAct → Prop
  | .pass => ∀ begun, m.pc = .iterate begun → ∀ i d, due event L m.state.loop i = some d → begun ≤ d
  | _ => True

end EvTimers

end Xsocks.Ev
