import Mathlib.Algebra.Order.Ring.Int
import Mathlib.Logic.Function.Basic

/-!
This module contains the event loop of `deps/redis/ae.c`: how file and time events are registered with
it and deleted again.
-/

namespace Xsocks.Ae

def AE_NONE : BitVec 32 := 0
def AE_READABLE : BitVec 32 := 1
def AE_WRITABLE : BitVec 32 := 2
def AE_BARRIER : BitVec 32 := 4

def AE_DELETED_EVENT_ID : Int := -1

inductive FileProc where
  | eventIoHandler
  deriving DecidableEq

/-- `aeFileEvent`, where `clientData` is the number of an event. -/
structure FileEvent where
  mask : BitVec 32
  rfileProc : Option FileProc
  wfileProc : Option FileProc
  clientData : Option Nat

/-- `aeTimeEvent`, with the time it is due in milliseconds. -/
structure TimeEvent where
  id : Int
  due : Int
  clientData : Nat
  deriving DecidableEq

structure Loop where
  setsize : Int
  events : Int → FileEvent
  timeEventNextId : Int
  timeEventHead : List TimeEvent

def aeCreateEventLoop (setsize : Int) : Loop where
  setsize := setsize
  events := fun _ => ⟨AE_NONE, none, none, none⟩
  timeEventNextId := 0
  timeEventHead := []

/-- `none` is `AE_ERR`. `api` says whether `aeApiAddEvent` succeeds. -/
def aeCreateFileEvent (el : Loop) (fd : Int) (mask : BitVec 32) (proc : FileProc) (clientData : Nat)
    (api : Bool)
    : Option Loop :=
  if el.setsize ≤ fd then none
  else if api = false then none
  else
    let fe := el.events fd
    some { el with
      events := Function.update el.events fd {
        mask := fe.mask ||| mask
        rfileProc := if mask &&& AE_READABLE ≠ 0 then some proc else fe.rfileProc
        wfileProc := if mask &&& AE_WRITABLE ≠ 0 then some proc else fe.wfileProc
        clientData := some clientData
      } }

def aeDeleteFileEvent (el : Loop) (fd : Int) (mask : BitVec 32) : Loop :=
  if el.setsize ≤ fd then el
  else
    let fe := el.events fd
    if fe.mask = AE_NONE then el
    else
      -- `AE_BARRIER` goes together with `AE_WRITABLE`.
      let mask := if mask &&& AE_WRITABLE ≠ 0 then mask ||| AE_BARRIER else mask
      { el with events := Function.update el.events fd { fe with mask := fe.mask &&& ~~~mask } }

def aeCreateTimeEvent (el : Loop) (milliseconds : Int) (clientData : Nat) (now : Int) : Int × Loop :=
  let id := el.timeEventNextId
  (id,
    { el with
        timeEventNextId := id + 1
        timeEventHead := ⟨id, now + milliseconds, clientData⟩ :: el.timeEventHead })

/-- The entry is only marked. It is freed by `processTimeEvents`. -/
def aeDeleteTimeEvent (el : Loop) (id : Int) : Loop :=
  { el with timeEventHead := go el.timeEventHead }
where
  go : List TimeEvent → List TimeEvent
  | [] => []
  | te :: tes =>
    if te.id = id then { te with id := AE_DELETED_EVENT_ID } :: tes else te :: go tes

/-- What `processTimeEvents` does with the entry at `k` if it is marked. -/
def unlink (el : Loop) (k : Nat) : Loop :=
  match el.timeEventHead[k]? with
  | some te =>
    if te.id = AE_DELETED_EVENT_ID then { el with timeEventHead := el.timeEventHead.eraseIdx k } else el
  | none => el

end Xsocks.Ae
