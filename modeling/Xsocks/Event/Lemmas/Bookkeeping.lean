import Xsocks.Event.Lemmas.Backend
import Xsocks.Event.Lemmas.Entries

/-!
This module contains what ae has registered: the directions of a descriptor, the timers and the signals.
`e->el` agrees with it as long as no step of a run fails, takes what belongs to another event or deletes a
timer whose number is no `int`.
-/

namespace Xsocks.Ev

open Ae

/-! # Descriptors -/

def direction (flags : Int) : BitVec 32 :=
  (eventApiNewEvent ⟨0, .io, flags⟩).mask

theorem direction_cases (flags : Int)
    : flags = EVENT_FLAG_READ ∧ direction flags = AE_READABLE
      ∨ flags = EVENT_FLAG_WRITE ∧ direction flags = AE_WRITABLE
      ∨ direction flags = 0 := by
  unfold direction eventApiNewEvent
  dsimp only
  split
  . next h => exact .inl ⟨h, rfl⟩
  . split
    . next h => exact .inr (.inl ⟨h, rfl⟩)
    . exact .inr (.inr rfl)

theorem direction_and_of_ne {flags flags' : Int} (h : flags' ≠ flags)
    : direction flags &&& direction flags' = 0 := by
  rcases direction_cases flags with ⟨rfl, hd⟩ | ⟨rfl, hd⟩ | hd
  . rcases direction_cases flags' with ⟨rfl, hd'⟩ | ⟨rfl, hd'⟩ | hd'
    . contradiction
    . rw [hd, hd']
      decide
    . rw [hd']
      exact BitVec.and_zero
  . rcases direction_cases flags' with ⟨rfl, hd'⟩ | ⟨rfl, hd'⟩ | hd'
    . rw [hd, hd']
      decide
    . contradiction
    . rw [hd']
      exact BitVec.and_zero
  . rw [hd]
    exact BitVec.zero_and

def cleared (flags : Int) : BitVec 32 :=
  if direction flags &&& AE_WRITABLE ≠ 0 then direction flags ||| AE_BARRIER else direction flags

theorem not_cleared_and_self (flags : Int) : ~~~cleared flags &&& direction flags = 0 := by
  unfold cleared
  rcases direction_cases flags with ⟨-, hd⟩ | ⟨-, hd⟩ | hd
  . rw [hd]
    decide
  . rw [hd]
    decide
  . rw [hd]
    decide

theorem not_cleared_and_of_ne {flags flags' : Int} (h : flags' ≠ flags)
    : ~~~cleared flags &&& direction flags' = direction flags' := by
  unfold cleared
  rcases direction_cases flags' with ⟨rfl, hd'⟩ | ⟨rfl, hd'⟩ | hd'
  . rcases direction_cases flags with ⟨rfl, hd⟩ | ⟨-, hd⟩ | hd
    . contradiction
    . rw [hd, hd']
      decide
    . rw [hd, hd']
      decide
  . rcases direction_cases flags with ⟨-, hd⟩ | ⟨rfl, hd⟩ | hd
    . rw [hd, hd']
      decide
    . contradiction
    . rw [hd, hd']
      decide
  . rw [hd']
    exact BitVec.and_zero

def Occupied (el : Loop) (fd flags : Int) : Prop :=
  (el.events fd).mask &&& direction flags ≠ 0

section

variable {el el' : Loop} {fd flags : Int} {proc : FileProc} {i : Nat} {api : Bool}

theorem aeCreateFileEvent_eq_some (flags : Int) (proc : FileProc) (i : Nat) (hfd : fd < el.setsize)
    : ∃ el', aeCreateFileEvent el fd (direction flags) proc i true = some el' := by
  unfold aeCreateFileEvent
  rw [if_neg (by omega), if_neg (by simp)]
  exact ⟨_, rfl⟩

theorem aeCreateFileEvent_eq_none (h : ¬(fd < el.setsize ∧ api = true))
    : aeCreateFileEvent el fd (direction flags) proc i api = none := by
  unfold aeCreateFileEvent
  split
  . rfl
  . rw [if_pos]
    cases api with
    | false => rfl
    | true => exact absurd ⟨by omega, rfl⟩ h

theorem occupied_create (h : aeCreateFileEvent el fd (direction flags) proc i api = some el')
    (hflags : direction flags ≠ 0) (fd' flags' : Int)
    : Occupied el' fd' flags' ↔ Occupied el fd' flags' ∨ fd' = fd ∧ flags' = flags := by
  unfold aeCreateFileEvent at h
  split at h
  . contradiction
  . split at h
    . contradiction
    . cases h
      unfold Occupied
      by_cases hfd : fd' = fd
      . subst hfd
        dsimp only
        rw [Function.update_self, BitVec.and_or_distrib_right]
        by_cases heq : flags' = flags
        . subst heq
          rw [BitVec.and_self]
          exact iff_of_true (fun h => hflags (BitVec.or_eq_zero_iff.mp h).2) (.inr ⟨rfl, rfl⟩)
        . simp [direction_and_of_ne heq, heq]
      . dsimp only
        rw [Function.update_of_ne hfd]
        simp [hfd]

theorem setsize_delete (el : Loop) (fd : Int) (mask : BitVec 32)
    : (aeDeleteFileEvent el fd mask).setsize = el.setsize := by
  unfold aeDeleteFileEvent
  split
  . rfl
  . dsimp only
    split <;> rfl

theorem occupied_delete (hfd : Occupied el fd flags → fd < el.setsize) (fd' flags' : Int)
    : Occupied (aeDeleteFileEvent el fd (direction flags)) fd' flags'
        ↔ Occupied el fd' flags' ∧ ¬(fd' = fd ∧ flags' = flags) := by
  -- The direction of `fd` can have been registered only if something is deleted.
  have hnot : ¬Occupied el fd flags → (Occupied el fd' flags'
      ↔ Occupied el fd' flags' ∧ ¬(fd' = fd ∧ flags' = flags)) := by
    intro hoff
    refine ⟨fun hon => ⟨hon, ?_⟩, And.left⟩
    rintro ⟨rfl, rfl⟩
    exact hoff hon
  unfold aeDeleteFileEvent
  split
  . exact hnot fun hon => by
      have := hfd hon
      omega
  . dsimp only
    split
    . next hnone =>
      apply hnot
      unfold Occupied
      rw [hnone]
      exact fun hon => hon BitVec.zero_and
    . change Occupied { el with events := Function.update el.events fd { el.events fd with
        mask := (el.events fd).mask &&& ~~~cleared flags } } fd' flags' ↔ _
      unfold Occupied
      by_cases hfd : fd' = fd
      . subst hfd
        dsimp only
        rw [Function.update_self, BitVec.and_assoc]
        by_cases heq : flags' = flags
        . subst heq
          simp [not_cleared_and_self]
        . simp [not_cleared_and_of_ne heq, heq]
      . dsimp only
        rw [Function.update_of_ne hfd]
        simp [hfd]

end

/-! # Registrations -/

def AeState.Registered (event : Nat → Event) (s : AeState) (i : Nat) : Prop :=
  let e := event i
  match e.type with
  | .io => Occupied s.state.loop e.id e.flags ∧ s.holder (e.id, e.flags) = some i
  | .time => HasTimer s.state i
  | .signal => s.state.signals e.id = some i

/--
The step does not fail, takes no direction of a descriptor that is registered and deletes a timer only
by its number.
-/
def Clear (event : Nat → Event) (s : AeState) : Op → Prop
  | .add i o =>
    let e := event i
    (s.state.ctx i).el = false →
      match e.type with
      | .io => e.id < s.state.loop.setsize ∧ o.api = true ∧ ¬Occupied s.state.loop e.id e.flags
      | .time => BitVec.ofInt 32 s.state.loop.timeEventNextId ≠ -1
      | .signal => s.state.signals e.id = none ∧ o.sigaction = true
  | .del i => (event i).type = .time → (s.state.ctx i).el = true → Numbered s.state i
  | .unlink _ => True

structure Tables (event : Nat → Event) (s : AeState) : Prop where
  ctx : ∀ i, (event i).type = .io → (s.state.ctx i).mask = direction (event i).flags
  held : ∀ fd flags, Occupied s.state.loop fd flags → fd < s.state.loop.setsize
    ∧ ∃ i, s.holder (fd, flags) = some i
        ∧ (event i).type = .io ∧ (event i).id = fd ∧ (event i).flags = flags
  entries : Entries event s.state

section

variable {event : Nat → Event} {s s' : AeState} {i : Nat} {o : Outcome}

theorem registered_io (htype : (event i).type = .io)
    : s.Registered event i ↔ Occupied s.state.loop (event i).id (event i).flags
        ∧ s.holder ((event i).id, (event i).flags) = some i := by
  unfold AeState.Registered
  dsimp only
  rw [htype]

theorem registered_time (htype : (event i).type = .time)
    : s.Registered event i ↔ HasTimer s.state i := by
  unfold AeState.Registered
  dsimp only
  rw [htype]

theorem registered_signal (htype : (event i).type = .signal)
    : s.Registered event i ↔ s.state.signals (event i).id = some i := by
  unfold AeState.Registered
  dsimp only
  rw [htype]

theorem registered_congr
    (hio : (event i).type = .io → (Occupied s'.state.loop (event i).id (event i).flags
        ∧ s'.holder ((event i).id, (event i).flags) = some i
      ↔ Occupied s.state.loop (event i).id (event i).flags
        ∧ s.holder ((event i).id, (event i).flags) = some i))
    (htime : (event i).type = .time → (HasTimer s'.state i ↔ HasTimer s.state i))
    (hsignal : (event i).type = .signal
      → (s'.state.signals (event i).id = some i ↔ s.state.signals (event i).id = some i))
    : s'.Registered event i ↔ s.Registered event i := by
  cases htype : (event i).type with
  | io =>
    rw [registered_io htype, registered_io htype]
    exact hio htype
  | time =>
    rw [registered_time htype, registered_time htype]
    exact htime htype
  | signal =>
    rw [registered_signal htype, registered_signal htype]
    exact hsignal htype

theorem eventApiAddEvent_ret (event : Nat → Event) (s : State) (i : Nat) (o : Outcome)
    : (eventApiAddEvent event s i o).1 = EVENT_OK ∨ (eventApiAddEvent event s i o).1 = EVENT_ERR := by
  unfold eventApiAddEvent
  dsimp only
  split
  . split
    . exact .inr rfl
    . exact .inl rfl
  . split
    . exact .inr rfl
    . exact .inl rfl
  . split
    . exact .inr rfl
    . split
      . exact .inr rfl
      . exact .inl rfl

theorem ae_eventAdd (hel : (s.state.ctx i).el = false)
    : (ae event).eventAdd s i o = ((eventAdd event s.state i o).1, {
        state := (eventAdd event s.state i o).2
        holder :=
          if (event i).type = .io ∧ (eventAdd event s.state i o).1 = EVENT_OK then
            Function.update s.holder ((event i).id, (event i).flags) (some i)
          else s.holder }) := by
  have hoff : ¬(ae event).el s i = true := by
    rw [Bool.not_eq_true]
    exact hel
  unfold Backend.eventAdd eventAdd
  rw [if_neg hoff, hel, if_neg Bool.false_ne_true]
  rcases eventApiAddEvent_ret event (s.state.setEl i true) i o with hret | hret
  . simp [ae, hret, EVENT_OK, EVENT_ERR]
  . simp [ae, hret, EVENT_OK, EVENT_ERR]

theorem ae_eventDel (s : AeState) (i : Nat)
    : (ae event).eventDel s i = { s with state := eventDel event s.state i } := by
  unfold Backend.eventDel eventDel
  cases hel : (s.state.ctx i).el with
  | true => simp [ae, hel]
  | false => simp [ae, hel]

theorem ae_step (s : AeState) (op : Op) : ((ae event).step s op).state = step event s.state op := by
  cases op with
  | unlink k => rfl
  | del i =>
    unfold Backend.step step
    dsimp only
    rw [ae_eventDel]
  | add i o =>
    unfold Backend.step step
    dsimp only
    cases hel : (s.state.ctx i).el with
    | true =>
      rw [eventAdd_of_el hel]
      unfold eventAdd
      rw [if_pos hel]
    | false => rw [ae_eventAdd hel]

section

variable {s : State}

theorem ctx_setEl (s : State) (i : Nat) (b : Bool) (j : Nat)
    : (s.setEl i b).ctx j = ⟨if j = i then b else (s.ctx j).el, (s.ctx j).mask⟩ := by
  unfold State.setEl
  by_cases hj : j = i
  . simp [hj]
  . simp [hj]

theorem ctx_eventApiAddEvent (event : Nat → Event) (s : State) (i : Nat) (o : Outcome) (j : Nat)
    : ((eventApiAddEvent event s i o).2.ctx j).el = (s.ctx j).el
      ∧ ((event j).type ≠ .time → ((eventApiAddEvent event s i o).2.ctx j).mask = (s.ctx j).mask) := by
  unfold eventApiAddEvent
  dsimp only
  split
  . split <;> exact ⟨rfl, fun _ => rfl⟩
  . next htype =>
    have hmask : ∀ s : State, ∀ mask, ((s.setMask i mask).ctx j).el = (s.ctx j).el
        ∧ ((event j).type ≠ .time → ((s.setMask i mask).ctx j).mask = (s.ctx j).mask) := by
      intro s mask
      unfold State.setMask
      by_cases hj : j = i
      . simp [hj, htype]
      . simp [hj]
    split <;> exact hmask _ _
  . split
    . exact ⟨rfl, fun _ => rfl⟩
    . split <;> exact ⟨rfl, fun _ => rfl⟩

variable (event) in
theorem ctx_eventAdd (o : Outcome) (hel : (s.ctx i).el = false) (j : Nat)
    : ((eventAdd event s i o).2.ctx j).el = ((s.ctx j).el || j == i)
      ∧ ((event j).type ≠ .time → ((eventAdd event s i o).2.ctx j).mask = (s.ctx j).mask) := by
  unfold eventAdd
  rw [hel, if_neg Bool.false_ne_true]
  obtain ⟨hel', hmask⟩ := ctx_eventApiAddEvent event (s.setEl i true) i o j
  rw [hel', ctx_setEl]
  rw [ctx_setEl] at hmask
  refine ⟨?_, hmask⟩
  by_cases hj : j = i
  . simp [hj]
  . simp [hj]

variable (event) in
theorem ctx_eventDel (hel : (s.ctx i).el = true) (j : Nat)
    : ((eventDel event s i).ctx j).el = ((s.ctx j).el && j != i)
      ∧ ((eventDel event s i).ctx j).mask = (s.ctx j).mask := by
  unfold eventDel
  rw [if_pos hel, ctx_setEl]
  have hctx : (eventApiDelEvent event s i).ctx = s.ctx := by
    unfold eventApiDelEvent
    dsimp only
    split <;> rfl
  rw [hctx]
  refine ⟨?_, rfl⟩
  by_cases hj : j = i
  . simp [hj]
  . simp [hj]

theorem eventAdd_io (o : Outcome) (htype : (event i).type = .io) (hel : (s.ctx i).el = false)
    : eventAdd event s i o
        = match aeCreateFileEvent s.loop (event i).id (s.ctx i).mask .eventIoHandler i o.api with
          | none => (EVENT_ERR, s.setEl i true)
          | some loop => (EVENT_OK, { s.setEl i true with loop := loop }) := by
  unfold eventAdd eventApiAddEvent
  rw [hel, if_neg Bool.false_ne_true]
  dsimp only
  rw [htype, ctx_setEl]
  rfl

theorem eventAdd_signal (o : Outcome) (htype : (event i).type = .signal) (hel : (s.ctx i).el = false)
    : eventAdd event s i o
        = if s.signals (event i).id = none ∧ o.sigaction = true then
            (EVENT_OK, { s.setEl i true with
              signals := Function.update s.signals (event i).id (some i) })
          else (EVENT_ERR, s.setEl i true) := by
  unfold eventAdd eventApiAddEvent
  rw [hel, if_neg Bool.false_ne_true]
  dsimp only
  rw [htype]
  dsimp only
  change (if (s.signals (event i).id).isSome = true then _ else _) = _
  cases hsig : s.signals (event i).id with
  | some k => rfl
  | none =>
    cases hact : o.sigaction with
    | true => rfl
    | false => rfl

theorem eventAdd_time_ret (o : Outcome) (htype : (event i).type = .time) (hel : (s.ctx i).el = false)
    : (eventAdd event s i o).1
          = (if BitVec.ofInt 32 s.loop.timeEventNextId = -1 then EVENT_ERR else EVENT_OK)
        ∧ (eventAdd event s i o).2.signals = s.signals := by
  unfold eventAdd eventApiAddEvent
  rw [hel, if_neg Bool.false_ne_true]
  dsimp only
  rw [htype]
  dsimp only
  split
  . next h => exact ⟨(if_pos h).symm, rfl⟩
  . next h => exact ⟨(if_neg h).symm, rfl⟩

end

theorem ae_el_eventAdd (o : Outcome) (hel : (s.state.ctx i).el = false) (j : Nat)
    : (ae event).el ((ae event).eventAdd s i o).2 j = ((ae event).el s j || j == i) := by
  rw [ae_eventAdd hel]
  exact (ctx_eventAdd event o hel j).1

theorem ae_el_eventAdd_self (o : Outcome) (hel : (s.state.ctx i).el = false)
    : (ae event).el ((ae event).eventAdd s i o).2 i = true := by
  rw [ae_el_eventAdd o hel]
  simp

/-! # File events -/

theorem ae_io_of_some {loop : Loop} (htype : (event i).type = .io) (hel : (s.state.ctx i).el = false)
    (hcreate : aeCreateFileEvent s.state.loop (event i).id (s.state.ctx i).mask .eventIoHandler i o.api
      = some loop)
    : (ae event).eventAdd s i o = (EVENT_OK, {
        state := { s.state.setEl i true with loop := loop }
        holder := Function.update s.holder ((event i).id, (event i).flags) (some i) }) := by
  rw [ae_eventAdd hel, eventAdd_io o htype hel, hcreate]
  dsimp only
  rw [if_pos ⟨htype, rfl⟩]

theorem ae_io_of_none (htype : (event i).type = .io) (hel : (s.state.ctx i).el = false)
    (hcreate : aeCreateFileEvent s.state.loop (event i).id (s.state.ctx i).mask .eventIoHandler i o.api
      = none)
    : (ae event).eventAdd s i o = (EVENT_ERR, { s with state := s.state.setEl i true }) := by
  rw [ae_eventAdd hel, eventAdd_io o htype hel, hcreate]
  dsimp only
  rw [if_neg fun h => absurd h.2 (by decide)]

theorem timers_create {el el' : Loop} {fd : Int} {mask : BitVec 32} {proc : FileProc} {api : Bool}
    (h : aeCreateFileEvent el fd mask proc i api = some el')
    : fd < el.setsize ∧ el'.setsize = el.setsize ∧ el'.timeEventNextId = el.timeEventNextId
      ∧ el'.timeEventHead = el.timeEventHead := by
  unfold aeCreateFileEvent at h
  split at h
  . contradiction
  . split at h
    . contradiction
    . cases h
      exact ⟨by omega, rfl, rfl, rfl⟩

theorem Tables.registered_create (h : Tables event s) {loop : Loop} (htype : (event i).type = .io)
    (hflags : direction (event i).flags ≠ 0) (hel : (s.state.ctx i).el = false)
    (hcreate : aeCreateFileEvent s.state.loop (event i).id (s.state.ctx i).mask .eventIoHandler i o.api
      = some loop) (j : Nat)
    : ((ae event).eventAdd s i o).2.Registered event j
        ↔ j = i ∨ s.Registered event j ∧ ¬((event j).type = .io ∧ (event j).id = (event i).id
          ∧ (event j).flags = (event i).flags) := by
  rw [ae_io_of_some htype hel hcreate]
  rw [h.ctx i htype] at hcreate
  cases htype' : (event j).type with
  | io =>
    rw [registered_io htype', registered_io htype', occupied_create hcreate hflags]
    dsimp only
    by_cases hkey : (event j).id = (event i).id ∧ (event j).flags = (event i).flags
    . rw [hkey.1, hkey.2, Function.update_self]
      simp [eq_comm]
    . have hne : j ≠ i := by
        rintro rfl
        exact hkey ⟨rfl, rfl⟩
      rw [Function.update_of_ne (by simpa using hkey)]
      simp [hkey, hne]
  | time =>
    have hne : j ≠ i := by
      rintro rfl
      rw [htype] at htype'
      contradiction
    rw [registered_time htype', registered_time htype', hasTimer_congr (timers_create hcreate).2.2.2]
    simp [hne, HasTimer]
  | signal =>
    have hne : j ≠ i := by
      rintro rfl
      rw [htype] at htype'
      contradiction
    rw [registered_signal htype', registered_signal htype']
    simp [hne, State.setEl]

theorem Tables.create (h : Tables event s) {loop : Loop} (htype : (event i).type = .io)
    (hflags : direction (event i).flags ≠ 0) (hel : (s.state.ctx i).el = false)
    (hcreate : aeCreateFileEvent s.state.loop (event i).id (s.state.ctx i).mask .eventIoHandler i o.api
      = some loop)
    : Tables event ((ae event).eventAdd s i o).2 := by
  have hctx := ctx_eventAdd event o hel
  obtain ⟨hfd, hsetsize, hnext, hhead⟩ := timers_create hcreate
  rw [eventAdd_io o htype hel, hcreate] at hctx
  rw [ae_io_of_some htype hel hcreate]
  rw [h.ctx i htype] at hcreate
  constructor
  case ctx =>
    intro j hj
    rw [← h.ctx j hj]
    exact (hctx j).2 (by simp [hj])
  case held =>
    intro fd flags hocc
    dsimp only at hocc ⊢
    rw [occupied_create hcreate hflags] at hocc
    rw [hsetsize]
    by_cases hkey : (fd, flags) = ((event i).id, (event i).flags)
    . rw [hkey, Function.update_self]
      rw [Prod.mk.injEq] at hkey
      rw [hkey.1, hkey.2]
      exact ⟨hfd, i, rfl, htype, rfl, rfl⟩
    . rw [Function.update_of_ne hkey]
      rw [Prod.mk.injEq] at hkey
      exact h.held fd flags (hocc.resolve_right hkey)
  case entries =>
    refine h.entries.of_eq hnext hhead fun j hj => ?_
    have hne : j ≠ i := by
      rintro rfl
      rw [htype] at hj
      contradiction
    rw [(hctx j).1]
    simp [hne]

theorem Made.direction_ne_zero {e : Event} (h : Made e) (htype : e.type = .io) : direction e.flags ≠ 0 := by
  cases h with
  | read fd =>
    change direction EVENT_FLAG_READ ≠ 0
    decide
  | write fd =>
    change direction EVENT_FLAG_WRITE ≠ 0
    decide
  | once timeout => contradiction
  | again timeout => contradiction
  | signal signal => contradiction

theorem Tables.booked_io (h : Tables event s) (hs : (ae event).Matches (AeState.Registered event) s)
    (hmade : Made (event i)) (htype : (event i).type = .io) (hel : (s.state.ctx i).el = false)
    : (ae event).Booked (AeState.Registered event) s (.add i o)
        ↔ (event i).id < s.state.loop.setsize ∧ o.api = true
          ∧ ¬Occupied s.state.loop (event i).id (event i).flags := by
  have hflags := hmade.direction_ne_zero htype
  by_cases hok : (event i).id < s.state.loop.setsize ∧ o.api = true
  . have hctx := h.ctx i htype
    obtain ⟨loop, hcreate⟩ := aeCreateFileEvent_eq_some (event i).flags .eventIoHandler i hok.1
    rw [← hctx, ← hok.2] at hcreate
    have hreg := h.registered_create htype hflags hel hcreate
    constructor
    . intro hbooked
      refine ⟨hok.1, hok.2, fun hocc => ?_⟩
      -- The event that has the direction takes itself for registered.
      obtain ⟨-, j, hholder, htype', hid, hfl⟩ := h.held _ _ hocc
      have hj : s.Registered event j := by
        rw [registered_io htype', hid, hfl]
        exact ⟨hocc, hholder⟩
      have hne : j ≠ i := by
        rintro rfl
        have := (hs j).mpr hj
        change (s.state.ctx j).el = true at this
        rw [hel] at this
        contradiction
      have hel' : (ae event).el ((ae event).eventAdd s i o).2 j = true := by
        rw [ae_el_eventAdd o hel, (hs j).mpr hj]
        rfl
      rcases (hreg j).mp ((hbooked.1 j).mp hel') with heq | ⟨-, hkey⟩
      . exact hne heq
      . exact hkey ⟨htype', hid, hfl⟩
    . rintro ⟨-, -, hocc⟩
      apply hs.adds
      constructor
      case ok => rw [ae_io_of_some htype hel hcreate]
      case el => exact ae_el_eventAdd o hel
      case registered =>
        intro j
        rw [hreg, or_comm]
        apply or_congr_left
        refine ⟨And.left, fun hj => ⟨hj, ?_⟩⟩
        rintro ⟨htype', hid, hfl⟩
        rw [registered_io htype', hid, hfl] at hj
        exact hocc hj.1
  . have hcreate : aeCreateFileEvent s.state.loop (event i).id (s.state.ctx i).mask .eventIoHandler i
        o.api = none := by
      rw [h.ctx i htype]
      exact aeCreateFileEvent_eq_none hok
    apply iff_of_false
    . apply hs.not_booked hel (ae_el_eventAdd_self o hel)
      rw [ae_io_of_none htype hel hcreate, registered_io htype, registered_io htype]
      exact id
    . exact fun hclear => hok ⟨hclear.1, hclear.2.1⟩

/-! # Signals and timers -/

theorem booked_signal (hs : (ae event).Matches (AeState.Registered event) s)
    (htype : (event i).type = .signal) (hel : (s.state.ctx i).el = false)
    : (ae event).Booked (AeState.Registered event) s (.add i o)
        ↔ s.state.signals (event i).id = none ∧ o.sigaction = true := by
  by_cases hok : s.state.signals (event i).id = none ∧ o.sigaction = true
  . apply iff_of_true _ hok
    have heq : (ae event).eventAdd s i o = (EVENT_OK, { s with
        state := { s.state.setEl i true with
          signals := Function.update s.state.signals (event i).id (some i) } }) := by
      rw [ae_eventAdd hel, eventAdd_signal o htype hel, if_pos hok]
      simp [htype]
    apply hs.adds
    constructor
    case ok => rw [heq]
    case el => exact ae_el_eventAdd o hel
    case registered =>
      intro j
      rw [heq]
      by_cases hj : j = i
      . subst hj
        rw [registered_signal htype]
        simp
      . simp only [hj, or_false]
        apply registered_congr
        . exact fun _ => Iff.rfl
        . exact fun _ => Iff.rfl
        . intro _
          dsimp only
          by_cases hid : (event j).id = (event i).id
          . rw [hid, Function.update_self, hok.1]
            simp [Ne.symm hj]
          . rw [Function.update_of_ne hid]
  . apply iff_of_false _ hok
    apply hs.not_booked hel (ae_el_eventAdd_self o hel)
    rw [ae_eventAdd hel, eventAdd_signal o htype hel, if_neg hok, registered_signal htype,
      registered_signal htype]
    exact id

theorem Tables.booked_time (h : Tables event s) (hs : (ae event).Matches (AeState.Registered event) s)
    (htype : (event i).type = .time) (hel : (s.state.ctx i).el = false)
    : (ae event).Booked (AeState.Registered event) s (.add i o)
        ↔ BitVec.ofInt 32 s.state.loop.timeEventNextId ≠ -1 := by
  obtain ⟨hret, hsignals⟩ := eventAdd_time_ret o htype hel
  obtain ⟨hloop, -⟩ := eventAdd_time event o htype hel
  have heq : (ae event).eventAdd s i o = _ := ae_eventAdd hel
  rw [if_neg (by simp [htype])] at heq
  by_cases hok : BitVec.ofInt 32 s.state.loop.timeEventNextId = -1
  . apply iff_of_false _ (not_not_intro hok)
    rintro ⟨-, hbooked⟩
    rw [ae_el_eventAdd_self o hel, heq, hret, if_pos hok] at hbooked
    rcases hbooked with ⟨herr, -⟩ | ⟨-, hfalse⟩
    . exact absurd herr (by decide)
    . contradiction
  . apply iff_of_true _ hok
    apply hs.adds
    constructor
    case ok => rw [heq, hret, if_neg hok]
    case el => exact ae_el_eventAdd o hel
    case registered =>
      intro j
      rw [heq]
      by_cases hj : j = i
      . subst hj
        rw [registered_time htype, registered_time htype]
        exact (h.entries.add o htype hel).2 j
      . simp only [hj, or_false]
        apply registered_congr
        . intro _
          unfold Occupied
          rw [hloop]
          rfl
        . intro _
          rw [(h.entries.add o htype hel).2 j]
          simp [hj]
        . intro _
          rw [hsignals]

/-! # eventDel -/

theorem ae_el_eventDel (hel : (s.state.ctx i).el = true) (j : Nat)
    : (ae event).el ((ae event).eventDel s i) j = ((ae event).el s j && j != i) := by
  rw [ae_eventDel]
  exact (ctx_eventDel event hel j).1

theorem eventDel_io {s : State} (htype : (event i).type = .io) (hel : (s.ctx i).el = true)
    : eventDel event s i
        = { s with loop := aeDeleteFileEvent s.loop (event i).id (s.ctx i).mask }.setEl i false := by
  unfold eventDel eventApiDelEvent
  rw [if_pos hel]
  dsimp only
  rw [htype]

theorem eventDel_signal {s : State} (htype : (event i).type = .signal) (hel : (s.ctx i).el = true)
    : eventDel event s i
        = { s with signals := Function.update s.signals (event i).id none }.setEl i false := by
  unfold eventDel eventApiDelEvent
  rw [if_pos hel]
  dsimp only
  rw [htype]

theorem Tables.dels_io (h : Tables event s) (hs : (ae event).Matches (AeState.Registered event) s)
    (htype : (event i).type = .io) (hel : (s.state.ctx i).el = true)
    : (ae event).Dels (AeState.Registered event) s i := by
  constructor
  case el => exact ae_el_eventDel hel
  case registered =>
    intro j
    have hi := (registered_io htype).mp ((hs i).mp hel)
    have hocc : ∀ fd' flags', Occupied (aeDeleteFileEvent s.state.loop (event i).id (s.state.ctx i).mask)
        fd' flags' ↔ Occupied s.state.loop fd' flags'
          ∧ ¬(fd' = (event i).id ∧ flags' = (event i).flags) := by
      rw [h.ctx i htype]
      exact occupied_delete fun _ => (h.held _ _ hi.1).1
    have htime : (event i).type ≠ .time := by simp [htype]
    have hhead := (eventDel_of_not_time (s := s.state) htime).2.1
    rw [ae_eventDel]
    cases htype' : (event j).type with
    | io =>
      rw [eventDel_io htype hel, registered_io htype', registered_io htype']
      dsimp only
      change Occupied (aeDeleteFileEvent s.state.loop (event i).id (s.state.ctx i).mask) _ _ ∧ _ ↔ _
      rw [hocc]
      by_cases hkey : (event j).id = (event i).id ∧ (event j).flags = (event i).flags
      . rw [hkey.1, hkey.2, hi.2]
        simp [eq_comm]
      . have hne : j ≠ i := by
          rintro rfl
          exact hkey ⟨rfl, rfl⟩
        simp [hkey, hne]
    | time =>
      have hne : j ≠ i := by
        rintro rfl
        rw [htype] at htype'
        contradiction
      rw [registered_time htype', registered_time htype', hasTimer_congr hhead]
      simp [hne]
    | signal =>
      have hne : j ≠ i := by
        rintro rfl
        rw [htype] at htype'
        contradiction
      rw [eventDel_io htype hel, registered_signal htype', registered_signal htype']
      simp [hne, State.setEl]

theorem dels_signal (hs : (ae event).Matches (AeState.Registered event) s)
    (htype : (event i).type = .signal) (hel : (s.state.ctx i).el = true)
    : (ae event).Dels (AeState.Registered event) s i := by
  constructor
  case el => exact ae_el_eventDel hel
  case registered =>
    intro j
    have hi := (registered_signal htype).mp ((hs i).mp hel)
    rw [ae_eventDel, eventDel_signal htype hel]
    by_cases hj : j = i
    . subst hj
      rw [registered_signal htype]
      simp [State.setEl]
    . simp only [ne_eq, hj, not_false_eq_true, and_true]
      apply registered_congr
      . exact fun _ => Iff.rfl
      . exact fun _ => Iff.rfl
      . intro _
        unfold State.setEl
        dsimp only
        by_cases hid : (event j).id = (event i).id
        . rw [hid, Function.update_self, hi]
          simp [Ne.symm hj]
        . rw [Function.update_of_ne hid]

theorem eventDel_time_rest {s : State} (htype : (event i).type = .time) (hel : (s.ctx i).el = true)
    : (eventDel event s i).loop.events = s.loop.events ∧ (eventDel event s i).signals = s.signals := by
  unfold eventDel eventApiDelEvent
  rw [if_pos hel]
  dsimp only
  rw [htype]
  exact ⟨rfl, rfl⟩

theorem Tables.booked_del_time (h : Tables event s)
    (hs : (ae event).Matches (AeState.Registered event) s) (htype : (event i).type = .time)
    (hel : (s.state.ctx i).el = true)
    : (ae event).Booked (AeState.Registered event) s (.del i) ↔ Numbered s.state i := by
  have hstate : ((ae event).eventDel s i).state = eventDel event s.state i := by rw [ae_eventDel]
  constructor
  . rintro ⟨hbooked, -⟩
    apply h.entries.numbered_of_del htype hel
    intro j
    by_cases htype' : (event j).type = .time
    . have hj := hbooked j
      rw [ae_el_eventDel hel, registered_time htype', hstate, Bool.and_eq_true, hs j,
        registered_time htype', bne_iff_ne] at hj
      exact hj
    . have hnot : ¬HasTimer s.state j := by
        rintro ⟨te, hte, hlive, rfl⟩
        exact htype' (h.entries.owner te hte hlive).1
      apply iff_of_false (fun hj => hnot hj.1)
      rintro ⟨te, hte, hlive, hj⟩
      rw [(eventDel_time event htype hel).1] at hte
      exact hnot ⟨te, mem_of_mem_go hte hlive, hlive, hj⟩
  . intro hnum
    apply hs.dels
    constructor
    case el => exact ae_el_eventDel hel
    case registered =>
      intro j
      obtain ⟨hevents, hsignals⟩ := eventDel_time_rest htype hel
      rw [ae_eventDel]
      by_cases hj : j = i
      . subst hj
        rw [registered_time htype, registered_time htype]
        exact (h.entries.del htype hel hnum).2 j
      . simp only [ne_eq, hj, not_false_eq_true, and_true]
        apply registered_congr
        . intro _
          unfold Occupied
          rw [hevents]
        . intro _
          rw [(h.entries.del htype hel hnum).2 j]
          simp [hj]
        . intro _
          rw [hsignals]

/-! # Runs -/

theorem Tables.registered_unlink (h : Tables event s) (k : Nat) (j : Nat)
    : ((ae event).unlink s k).Registered event j ↔ s.Registered event j := by
  apply registered_congr
  . intro _
    change Occupied (Ae.unlink s.state.loop k) _ _ ∧ _ ↔ _
    unfold Occupied
    rw [(unlink_files s.state.loop k).2]
    exact Iff.rfl
  . exact fun _ => (h.entries.unlink k).2 j
  . exact fun _ => Iff.rfl

theorem Tables.booked_iff_clear (h : Tables event s) (hs : (ae event).Matches (AeState.Registered event) s)
    (hmade : ∀ i, Made (event i)) (op : Op)
    : (ae event).Booked (AeState.Registered event) s op ↔ Clear event s op := by
  cases op with
  | unlink k =>
    apply iff_of_true _ trivial
    exact fun j => (hs j).trans (h.registered_unlink k j).symm
  | add i o =>
    unfold Clear
    dsimp only
    cases hel : (s.state.ctx i).el with
    | true => exact iff_of_true (hs.add_of_el hel) (fun hfalse => by contradiction)
    | false =>
      rw [forall_prop_of_true rfl]
      cases htype : (event i).type with
      | io => exact h.booked_io hs (hmade i) htype hel
      | time => exact h.booked_time hs htype hel
      | signal => exact booked_signal hs htype hel
  | del i =>
    unfold Clear
    dsimp only
    cases hel : (s.state.ctx i).el with
    | false => exact iff_of_true (hs.del_of_el hel) (fun _ hfalse => by contradiction)
    | true =>
      cases htype : (event i).type with
      | io => exact iff_of_true (hs.dels (h.dels_io hs htype hel)) (fun hfalse => by contradiction)
      | time =>
        rw [h.booked_del_time hs htype hel]
        exact ⟨fun hnum _ _ => hnum, fun hnum => hnum rfl rfl⟩
      | signal => exact iff_of_true (hs.dels (dels_signal hs htype hel)) (fun hfalse => by contradiction)

theorem Tables.of_files (h : Tables event s)
    (hctx : ∀ j, (event j).type = .io → (s'.state.ctx j).mask = (s.state.ctx j).mask)
    (hevents : s'.state.loop.events = s.state.loop.events)
    (hsetsize : s'.state.loop.setsize = s.state.loop.setsize) (hholder : s'.holder = s.holder)
    (hentries : Entries event s'.state)
    : Tables event s' where
  ctx j hj := (hctx j hj).trans (h.ctx j hj)
  held fd flags hocc := by
    unfold Occupied at hocc
    rw [hevents] at hocc
    rw [hsetsize, hholder]
    exact h.held fd flags hocc
  entries := hentries

theorem Tables.add (h : Tables event s) (hmade : Made (event i)) (hel : (s.state.ctx i).el = false)
    (hclear : Clear event s (.add i o))
    : Tables event ((ae event).eventAdd s i o).2 := by
  unfold Clear at hclear
  dsimp only at hclear
  rw [hel, forall_prop_of_true rfl] at hclear
  have hmask : ∀ j, (event j).type = .io
      → ((eventAdd event s.state i o).2.ctx j).mask = (s.state.ctx j).mask :=
    fun j hj => (ctx_eventAdd event o hel j).2 (by simp [hj])
  cases htype : (event i).type with
  | io =>
    rw [htype] at hclear
    obtain ⟨loop, hcreate⟩ := aeCreateFileEvent_eq_some (event i).flags .eventIoHandler i hclear.1
    rw [← h.ctx i htype, ← hclear.2.1] at hcreate
    exact h.create htype (hmade.direction_ne_zero htype) hel hcreate
  | time =>
    obtain ⟨hloop, -⟩ := eventAdd_time event o htype hel
    rw [ae_eventAdd hel, if_neg (by simp [htype])]
    refine h.of_files hmask ?_ ?_ rfl (h.entries.add o htype hel).1
    . dsimp only
      rw [hloop]
      rfl
    . dsimp only
      rw [hloop]
      rfl
  | signal =>
    rw [htype] at hclear
    have htime : (event i).type ≠ .time := by simp [htype]
    obtain ⟨hnext, hhead, hctx⟩ := eventAdd_of_not_time (s := s.state) o htime
    rw [ae_eventAdd hel, if_neg (by simp [htype])]
    refine h.of_files hmask ?_ ?_ rfl (h.entries.of_eq hnext hhead fun j hj => by rw [hctx j hj])
    . dsimp only
      rw [eventAdd_signal o htype hel, if_pos hclear]
      rfl
    . dsimp only
      rw [eventAdd_signal o htype hel, if_pos hclear]
      rfl

theorem Tables.del (h : Tables event s) (hel : (s.state.ctx i).el = true)
    (hclear : Clear event s (.del i))
    : Tables event ((ae event).eventDel s i) := by
  have hmask : ∀ j, (event j).type = .io
      → ((eventDel event s.state i).ctx j).mask = (s.state.ctx j).mask :=
    fun j _ => (ctx_eventDel event hel j).2
  rw [ae_eventDel]
  cases htype : (event i).type with
  | io =>
    have htime : (event i).type ≠ .time := by simp [htype]
    obtain ⟨hnext, hhead, hctx⟩ := eventDel_of_not_time (s := s.state) htime
    constructor
    case ctx => exact fun j hj => (hmask j hj).trans (h.ctx j hj)
    case held =>
      intro fd flags hocc
      rw [eventDel_io htype hel] at hocc ⊢
      change Occupied (aeDeleteFileEvent s.state.loop (event i).id (s.state.ctx i).mask) fd flags at hocc
      change fd < (aeDeleteFileEvent s.state.loop (event i).id (s.state.ctx i).mask).setsize ∧ _
      rw [h.ctx i htype, occupied_delete fun hocc => (h.held _ _ hocc).1] at hocc
      rw [setsize_delete]
      exact h.held fd flags hocc.1
    case entries => exact h.entries.of_eq hnext hhead fun j hj => by rw [hctx j hj]
  | time =>
    obtain ⟨hevents, -⟩ := eventDel_time_rest htype hel
    refine h.of_files hmask hevents ?_ rfl (h.entries.del htype hel (hclear htype hel)).1
    dsimp only
    rw [(eventDel_time event htype hel).1]
    rfl
  | signal =>
    have htime : (event i).type ≠ .time := by simp [htype]
    obtain ⟨hnext, hhead, hctx⟩ := eventDel_of_not_time (s := s.state) htime
    refine h.of_files hmask ?_ ?_ rfl (h.entries.of_eq hnext hhead fun j hj => by rw [hctx j hj])
    . dsimp only
      rw [eventDel_signal htype hel]
      rfl
    . dsimp only
      rw [eventDel_signal htype hel]
      rfl

theorem Tables.step (h : Tables event s) (hmade : ∀ i, Made (event i)) {op : Op}
    (hclear : Clear event s op)
    : Tables event ((ae event).step s op) := by
  cases op with
  | unlink k =>
    constructor
    case ctx => exact h.ctx
    case held =>
      intro fd flags hocc
      change Occupied (Ae.unlink s.state.loop k) fd flags at hocc
      change fd < (Ae.unlink s.state.loop k).setsize ∧ _
      unfold Occupied at hocc
      rw [(unlink_files s.state.loop k).2] at hocc
      rw [(unlink_files s.state.loop k).1]
      exact h.held fd flags hocc
    case entries => exact (h.entries.unlink k).1
  | add i o =>
    change Tables event ((ae event).eventAdd s i o).2
    cases hel : (s.state.ctx i).el with
    | true =>
      rw [eventAdd_of_el hel]
      exact h
    | false => exact h.add (hmade i) hel hclear
  | del i =>
    change Tables event ((ae event).eventDel s i)
    cases hel : (s.state.ctx i).el with
    | true => exact h.del hel hclear
    | false =>
      rw [eventDel_of_el hel]
      exact h

theorem tables_new (event : Nat → Event) (setsize : Int) : Tables event (.new event setsize) where
  ctx _ _ := rfl
  held _ _ hocc := absurd BitVec.zero_and hocc
  entries := entries_new event setsize

theorem matches_new (event : Nat → Event) (setsize : Int)
    : (ae event).Matches (AeState.Registered event) (.new event setsize) := by
  intro i
  apply iff_of_false
  . exact Bool.false_ne_true
  . cases htype : (event i).type with
    | io =>
      rw [registered_io htype]
      exact fun h => h.1 BitVec.zero_and
    | time =>
      rw [registered_time htype]
      rintro ⟨te, hte, -⟩
      contradiction
    | signal =>
      rw [registered_signal htype]
      exact fun h => by contradiction

end

/--
With ae, the books are kept in a run if and only if all of its steps are clear. With libev, they are kept
in every run.
-/
theorem along_booked_iff (E : MadeEvents)
    : (∀ setsize ops, Run.Along (ae E.event).next ((ae E.event).Booked (AeState.Registered E.event))
          (.new E.event setsize) ops
        ↔ Run.Along (ae E.event).next (Clear E.event) (.new E.event setsize) ops)
      ∧ ∀ (σ : Type) (L : Libev σ) (ops : List Op),
          Run.Along (libev L E.event).next ((libev L E.event).Booked (LibevState.Registered L)) (.new L)
            ops := by
  constructor
  . intro setsize ops
    apply Run.along_congr (I := fun s =>
      Tables E.event s ∧ (ae E.event).Matches (AeState.Registered E.event) s)
    . exact fun s op hs => hs.1.booked_iff_clear hs.2 E.made op
    . intro s op s' hs hbooked heq
      cases heq
      exact ⟨hs.1.step E.made ((hs.1.booked_iff_clear hs.2 E.made op).mp hbooked), hbooked.matches⟩
    . exact ⟨tables_new E.event setsize, matches_new E.event setsize⟩
  . exact fun _ L ops => libev_along L E.event ops

def sigints : MadeEvents where
  event := fun _ => NEW_EVENT_SIGNAL 2
  made := fun _ => .signal 2

-- The signal has a handler already, and `e->el` of the second event stays set.
theorem second_handler_not_booked
    : ¬Run.Along (ae sigints.event).next ((ae sigints.event).Booked (AeState.Registered sigints.event))
        (.new sigints.event 1024) [.add 0 {}, .add 1 {}] := by
  rintro ⟨-, h⟩
  obtain ⟨⟨hmatches, -⟩, -⟩ := h _ rfl
  have hreg : (some 0 : Option Nat) = some 1 := (hmatches 1).mp rfl
  contradiction

end Xsocks.Ev
