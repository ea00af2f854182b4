import Xsocks.Event.Impl.Ae

/-!
This module contains `event/event.c` with the backend `event_ae.h`, and the dispatch of file events in
`aeProcessEvents`.
-/

namespace Xsocks.Ev

open Ae

inductive EventType where
  | io
  | time
  | signal
  deriving DecidableEq

def EVENT_FLAG_READ : Int := 0
def EVENT_FLAG_WRITE : Int := 1

def EVENT_OK : Int := 0
def EVENT_ERR : Int := -1

structure Event where
  id : Int
  type : EventType
  flags : Int
  deriving DecidableEq

structure EventContext where
  /-- `e->el` is set. -/
  el : Bool
  mask : BitVec 32

structure Outcome where
  api : Bool := true
  sigaction : Bool := true
  now : Int := 0

structure State where
  loop : Loop
  ctx : Nat → EventContext
  signals : Int → Option Nat

def eventApiNewEvent (e : Event) : EventContext where
  el := false
  mask :=
    if e.flags = EVENT_FLAG_READ then AE_READABLE
    else if e.flags = EVENT_FLAG_WRITE then AE_WRITABLE
    else AE_NONE

def State.new (event : Nat → Event) (setsize : Int) : State where
  loop := aeCreateEventLoop setsize
  ctx := fun i => eventApiNewEvent (event i)
  signals := fun _ => none

namespace State

def setEl (s : State) (i : Nat) (el : Bool) : State :=
  { s with ctx := Function.update s.ctx i { s.ctx i with el := el } }

def setMask (s : State) (i : Nat) (mask : BitVec 32) : State :=
  { s with ctx := Function.update s.ctx i { s.ctx i with mask := mask } }

end State

section

variable (event : Nat → Event)

def eventApiAddEvent (s : State) (i : Nat) (o : Outcome) : Int × State :=
  let e := event i
  match e.type with
  | .io =>
    match aeCreateFileEvent s.loop e.id (s.ctx i).mask .eventIoHandler i o.api with
    | none => (EVENT_ERR, s)
    | some loop => (EVENT_OK, { s with loop := loop })
  | .time =>
    let (id, loop) := aeCreateTimeEvent s.loop e.id i o.now
    -- The `long long` is cut to an `int` before it is compared with `AE_ERR`.
    let mask := BitVec.ofInt 32 id
    let s := { s with loop := loop }.setMask i mask
    if mask = -1 then (EVENT_ERR, s) else (EVENT_OK, s)
  | .signal =>
    if (s.signals e.id).isSome then (EVENT_ERR, s)
    else if o.sigaction = false then (EVENT_ERR, s)
    else (EVENT_OK, { s with signals := Function.update s.signals e.id (some i) })

def eventApiDelEvent (s : State) (i : Nat) : State :=
  let e := event i
  match e.type with
  | .io => { s with loop := aeDeleteFileEvent s.loop e.id (s.ctx i).mask }
  | .time => { s with loop := aeDeleteTimeEvent s.loop (s.ctx i).mask.toInt }
  | .signal => { s with signals := Function.update s.signals e.id none }

def eventAdd (s : State) (i : Nat) (o : Outcome) : Int × State :=
  if (s.ctx i).el then (EVENT_OK, s) else eventApiAddEvent event (s.setEl i true) i o

def eventDel (s : State) (i : Nat) : State :=
  if (s.ctx i).el then (eventApiDelEvent event s i).setEl i false else s

inductive Op where
  | add (i : Nat) (o : Outcome)
  | del (i : Nat)
  | unlink (k : Nat)

def step (s : State) : Op → State
  | .add i o => (eventAdd event s i o).2
  | .del i => eventDel event s i
  | .unlink k => { s with loop := unlink s.loop k }

/-- `proc(eventLoop, fd, fe->clientData, mask)`, where `handler` is what the handler of an event does. -/
def call (handler : Nat → State → State) (s : State) (fd : Int) : List Nat × State :=
  match (s.loop.events fd).clientData with
  | some i => ([i], handler i s)
  | none => ([], s)

/-- The part of `aeProcessEvents` for one descriptor, with the events whose handlers are called. -/
def aeProcessFired (handler : Nat → State → State) (s : State) (fd : Int) (mask : BitVec 32)
    : List Nat × State :=
  let invert := (s.loop.events fd).mask &&& AE_BARRIER ≠ 0
  let (fired, s) :=
    if ¬invert ∧ (s.loop.events fd).mask &&& mask &&& AE_READABLE ≠ 0 then call handler s fd
    else ([], s)
  -- The handler may have changed the mask.
  let (fired, s) :=
    if (s.loop.events fd).mask &&& mask &&& AE_WRITABLE ≠ 0 ∧ again fired s then
      let (fired', s) := call handler s fd
      (fired ++ fired', s)
    else (fired, s)
  if invert ∧ (s.loop.events fd).mask &&& mask &&& AE_READABLE ≠ 0 ∧ again fired s then
    let (fired', s) := call handler s fd
    (fired ++ fired', s)
  else (fired, s)
where
  /-- `!fired || fe->wfileProc != fe->rfileProc` -/
  again (fired : List Nat) (s : State) : Bool :=
    fired.isEmpty || (s.loop.events fd).wfileProc != (s.loop.events fd).rfileProc

end

end Xsocks.Ev
