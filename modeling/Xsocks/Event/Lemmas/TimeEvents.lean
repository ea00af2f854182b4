import Xsocks.Event.Impl.TimeEvents
import Xsocks.Event.Lemmas.Bookkeeping

/-!
This module contains what `processTimeEvents` does with the timers of `event_ae.h`. It calls the handler
of each timer as often as it is to be called if the handlers of those that are to be called once delete
them.
-/

namespace Xsocks.Ae

theorem getElem?_go {id : Int} {tes : List TimeEvent} {j : Nat} {te' : TimeEvent}
    (h : (aeDeleteTimeEvent.go id tes)[j]? = some te')
    : ∃ te, tes[j]? = some te ∧ te'.clientData = te.clientData ∧ (te'.Live → te' = te) := by
  induction tes generalizing j with
  | nil => contradiction
  | cons t tes ih =>
    unfold aeDeleteTimeEvent.go at h
    split at h
    . cases j with
      | zero =>
        rw [List.getElem?_cons_zero, Option.some.injEq] at h
        subst h
        exact ⟨t, rfl, rfl, fun hlive => absurd rfl hlive⟩
      | succ j => exact ⟨te', h, rfl, fun _ => rfl⟩
    . cases j with
      | zero =>
        rw [List.getElem?_cons_zero, Option.some.injEq] at h
        subst h
        exact ⟨t, rfl, rfl, fun _ => rfl⟩
      | succ j => exact ih h

theorem length_go (id : Int) (tes : List TimeEvent) : (aeDeleteTimeEvent.go id tes).length = tes.length := by
  induction tes with
  | nil => rfl
  | cons t tes ih =>
    unfold aeDeleteTimeEvent.go
    split
    . rfl
    . rw [List.length_cons, List.length_cons, ih]

end Xsocks.Ae

namespace Xsocks.Ev

open Ae

/-- The timers of a process, where the time `ms` is a number of milliseconds. -/
def timerSpec {T : Type} (event : Nat → Event) (ms : Int → T) : Timer.Spec Nat T where
  again := fun i => (event i).flags != EVENT_FLAG_TIME_ONCE
  interval := fun i => ms (event i).id

def Again (event : Nat → Event) (i : Nat) : Prop :=
  (event i).flags ≠ EVENT_FLAG_TIME_ONCE

def AePc.current : AePc → Option Int
  | .timeProc _ _ id _ _ => some id
  | _ => none

def InTime (event : Nat → Event) (begun : Int) (te : TimeEvent) : Prop :=
  te.Live → Again event te.clientData → begun ≤ te.due

/--
The entries before the last `a` ones are not overdue, and no new entry is among the last `n` ones.
-/
structure Looked (event : Nat → Event) (begun : Int) (tes : List TimeEvent) (maxId : Int) (a n : Nat) : Prop where
  le : n ≤ a ∧ a ≤ tes.length
  marked_le : AE_DELETED_EVENT_ID ≤ maxId
  inTime : ∀ (j : Nat) te, tes[j]? = some te → j + a < tes.length → InTime event begun te
  id_le : ∀ (j : Nat) te, tes[j]? = some te → tes.length ≤ j + n → te.id ≤ maxId

structure Calling (tes : List TimeEvent) (nextId : Int) (t : Timer.State Nat Int) (k : Nat) (id : Int)
    (i : Nat) : Prop where
  id_lt : id < nextId
  id_ne : id ≠ AE_DELETED_EVENT_ID
  only : ∀ (j : Nat) te, tes[j]? = some te → te.id = id → j = k
  entry : ∃ te, tes[k]? = some te ∧ te.clientData = i
    ∧ (te.Live → te.id = id ∧ ∃ l, t i = some l ∧ l.running = true)

def AePc.Ok (event : Nat → Event) (begun : Int) (tes : List TimeEvent) (nextId : Int)
    (t : Timer.State Nat Int)
    : AePc → Prop
  | .idle => True
  | .iterate maxId n => Looked event begun tes maxId n n
  | .timeProc maxId n id i retval =>
    retval = (event i).id ∧ Looked event begun tes maxId (n + 1) n
      ∧ Calling tes nextId t (tes.length - (n + 1)) id i

structure AeKeeps (event : Nat → Event) (m : AeTimers) (t : Timer.State Nat Int) : Prop where
  entries : Entries event m.state
  el : ∀ i, (event i).type = .time → ((m.state.ctx i).el = true ↔ (t i).isSome = true)
  log : ∀ i l, t i = some l → (event i).type = .time ∧ (Again event i → 0 < (event i).id)
    ∧ l.due ≤ l.time ∧ l.time ≤ m.clock
  scheduled : ∀ te ∈ m.timeEventHead, te.Live → m.pc.current ≠ some te.id
    → ∃ l, t te.clientData = some l ∧ l.running = false ∧ l.due + (event te.clientData).id ≤ te.due
        ∧ te.due ≤ l.time + (event te.clientData).id ∧ (¬Again event te.clientData → l.runs = 0)
  has : ∀ i l, t i = some l → Again event i → HasTimer m.state i
  begun : m.begun ≤ m.clock
  lastTime : m.lastTime ≤ m.clock / 1000
  pc : m.pc.Ok event m.begun m.timeEventHead m.state.loop.timeEventNextId t

section

variable {event : Nat → Event} {begun maxId : Int} {tes : List TimeEvent} {a n : Nat}

theorem Looked.cons (h : Looked event begun tes maxId a n) {te : TimeEvent} (hte : InTime event begun te)
    : Looked event begun (te :: tes) maxId a n := by
  have hle := h.le
  constructor
  case le =>
    rw [List.length_cons]
    omega
  case marked_le => exact h.marked_le
  case inTime =>
    intro j te' hj hlt
    rw [List.length_cons] at hlt
    cases j with
    | zero =>
      rw [List.getElem?_cons_zero, Option.some.injEq] at hj
      subst hj
      exact hte
    | succ j => exact h.inTime j te' hj (by omega)
  case id_le =>
    intro j te' hj hlt
    rw [List.length_cons] at hlt
    cases j with
    | zero => omega
    | succ j => exact h.id_le j te' hj (by omega)

theorem Looked.go (h : Looked event begun tes maxId a n) (id : Int)
    : Looked event begun (aeDeleteTimeEvent.go id tes) maxId a n := by
  constructor
  case le =>
    rw [length_go]
    exact h.le
  case marked_le => exact h.marked_le
  case inTime =>
    intro j te' hj hlt hlive
    rw [length_go] at hlt
    obtain ⟨te, hte, -, heq⟩ := getElem?_go hj
    have heq' := heq hlive
    subst heq'
    exact h.inTime j te' hte hlt hlive
  case id_le =>
    intro j te' hj hlt
    rw [length_go] at hlt
    obtain ⟨te, hte, -, heq⟩ := getElem?_go hj
    by_cases hlive : te'.Live
    . rw [heq hlive]
      exact h.id_le j te hte hlt
    . unfold TimeEvent.Live at hlive
      rw [not_not] at hlive
      rw [hlive]
      exact h.marked_le

variable {m : AeTimers} {t t' : Timer.State Nat Int} {pc : AePc} {nextId : Int} {i : Nat}

theorem Calling.cons {k : Nat} {id : Int} (h : Calling tes nextId t k id i) {te : TimeEvent}
    (hid : nextId ≤ te.id) {nextId' : Int} (hnext : nextId ≤ nextId')
    (ht : ∀ te ∈ tes, te.Live → t' te.clientData = t te.clientData)
    : Calling (te :: tes) nextId' t' (k + 1) id i := by
  have hlt := h.id_lt
  obtain ⟨te₀, hte₀, hdata, hcalling⟩ := h.entry
  constructor
  case id_lt => omega
  case id_ne => exact h.id_ne
  case only =>
    intro j te' hj heq
    cases j with
    | zero =>
      rw [List.getElem?_cons_zero, Option.some.injEq] at hj
      subst hj
      omega
    | succ j => rw [h.only j te' hj heq]
  case entry =>
    refine ⟨te₀, hte₀, hdata, fun hlive => ?_⟩
    rw [← hdata, ht te₀ (List.mem_of_getElem? hte₀) hlive, hdata]
    exact hcalling hlive

theorem Calling.go {k : Nat} {id : Int} (h : Calling tes nextId t k id i) {del : Int}
    (ht : ∀ te ∈ aeDeleteTimeEvent.go del tes, te.Live → t' te.clientData = t te.clientData)
    : Calling (aeDeleteTimeEvent.go del tes) nextId t' k id i := by
  obtain ⟨te, hte, hdata, hcalling⟩ := h.entry
  constructor
  case id_lt => exact h.id_lt
  case id_ne => exact h.id_ne
  case only =>
    intro j te' hj heq
    obtain ⟨te₀, hte₀, -, hsame⟩ := getElem?_go hj
    have hlive : te'.Live := by
      unfold TimeEvent.Live
      rw [heq]
      exact h.id_ne
    rw [hsame hlive] at heq
    exact h.only j te₀ hte₀ heq
  case entry =>
    have hlt : k < (aeDeleteTimeEvent.go del tes).length := by
      rw [length_go]
      exact (List.getElem?_eq_some_iff.mp hte).1
    obtain ⟨te', hte'⟩ : ∃ te', (aeDeleteTimeEvent.go del tes)[k]? = some te' :=
      ⟨_, List.getElem?_eq_getElem hlt⟩
    obtain ⟨te₀, hmem, hdata', hsame⟩ := getElem?_go hte'
    rw [hte, Option.some.injEq] at hmem
    subst hmem
    refine ⟨te', hte', hdata'.trans hdata, fun hlive => ?_⟩
    rw [← hdata, ← hdata', ht _ (List.mem_of_getElem? hte') hlive, hdata', hdata]
    have heq := hsame hlive
    rw [heq] at hlive ⊢
    exact hcalling hlive

theorem AePc.Ok.cons (h : pc.Ok event begun tes nextId t) {te : TimeEvent} (hte : InTime event begun te)
    (hid : nextId ≤ te.id) {nextId' : Int} (hnext : nextId ≤ nextId')
    (ht : ∀ te ∈ tes, te.Live → t' te.clientData = t te.clientData)
    : pc.Ok event begun (te :: tes) nextId' t' := by
  cases pc with
  | idle => trivial
  | iterate maxId n => exact Looked.cons h hte
  | timeProc maxId n id i retval =>
    obtain ⟨hret, hlooked, hcalling⟩ := h
    refine ⟨hret, hlooked.cons hte, ?_⟩
    rw [List.length_cons, Nat.succ_sub hlooked.le.2]
    exact hcalling.cons hid hnext ht

theorem AePc.Ok.go (h : pc.Ok event begun tes nextId t) {id : Int}
    (ht : ∀ te ∈ aeDeleteTimeEvent.go id tes, te.Live → t' te.clientData = t te.clientData)
    : pc.Ok event begun (aeDeleteTimeEvent.go id tes) nextId t' := by
  cases pc with
  | idle => trivial
  | iterate maxId n => exact Looked.go h id
  | timeProc maxId n cur i retval =>
    obtain ⟨hret, hlooked, hcalling⟩ := h
    refine ⟨hret, hlooked.go id, ?_⟩
    rw [length_go]
    exact hcalling.go ht

theorem AeKeeps.of_eq (h : AeKeeps event m t) {s : State}
    (hnext : s.loop.timeEventNextId = m.state.loop.timeEventNextId)
    (hhead : s.loop.timeEventHead = m.state.loop.timeEventHead)
    (hel : ∀ j, (event j).type = .time → (s.ctx j).el = (m.state.ctx j).el)
    : AeKeeps event { m with state := s } t := by
  have hhead' : { m with state := s : AeTimers }.timeEventHead = m.timeEventHead := hhead
  constructor
  case entries => exact h.entries.of_eq hnext hhead hel
  case el =>
    intro j hj
    rw [← h.el j hj, ← hel j hj]
  case log => exact h.log
  case scheduled =>
    rw [hhead']
    exact h.scheduled
  case has => exact fun j l hl hagain => (hasTimer_congr hhead j).mpr (h.has j l hl hagain)
  case begun => exact h.begun
  case lastTime => exact h.lastTime
  case pc =>
    dsimp only
    rw [hhead', hnext]
    exact h.pc

theorem AeKeeps.add (h : AeKeeps event m t) (o : Outcome) (htype : (event i).type = .time)
    (hel : (m.state.ctx i).el = false) (hpos : Again event i → 0 < (event i).id)
    : AeKeeps event { m with state := (eventAdd event m.state i { o with now := m.clock }).2 }
        (t.next (.add i m.clock)) := by
  obtain ⟨hentries, hhas⟩ := h.entries.add { o with now := m.clock } htype hel
  obtain ⟨hloop, hctx⟩ := eventAdd_time event { o with now := m.clock } htype hel
  have hold : ∀ te ∈ m.timeEventHead, te.Live → te.clientData ≠ i :=
    fun te hte hlive heq => h.entries.not_hasTimer hel ⟨te, hte, hlive, heq⟩
  have hnext := h.entries.nextId
  generalize eventAdd event m.state i { o with now := m.clock } = r at hentries hhas hloop hctx ⊢
  have hhead : { m with state := r.2 : AeTimers }.timeEventHead
      = ⟨m.state.loop.timeEventNextId, m.clock + (event i).id, i⟩ :: m.timeEventHead :=
    congrArg Loop.timeEventHead hloop
  constructor
  case entries => exact hentries
  case el =>
    intro j hj
    dsimp only
    rw [hctx, Timer.State.next]
    by_cases heq : j = i
    . simp [heq]
    . rw [Function.update_of_ne heq, Function.update_of_ne heq]
      exact h.el j hj
  case log =>
    intro j l hl
    rw [Timer.State.next] at hl
    by_cases heq : j = i
    . rw [heq, Function.update_self, Option.some.injEq] at hl
      subst hl
      rw [heq]
      exact ⟨htype, hpos, Int.le_refl _, Int.le_refl _⟩
    . rw [Function.update_of_ne heq] at hl
      exact h.log j l hl
  case scheduled =>
    rw [hhead]
    intro te hte hlive hcur
    rw [Timer.State.next]
    rw [List.mem_cons] at hte
    rcases hte with rfl | hte
    . rw [Function.update_self]
      exact ⟨_, rfl, rfl, Int.le_refl _, Int.le_refl _, fun _ => rfl⟩
    . rw [Function.update_of_ne (hold te hte hlive)]
      exact h.scheduled te hte hlive hcur
  case has =>
    intro j l hl hagain
    rw [hhas]
    rw [Timer.State.next] at hl
    by_cases heq : j = i
    . exact .inr heq
    . rw [Function.update_of_ne heq] at hl
      exact .inl (h.has j l hl hagain)
  case begun => exact h.begun
  case lastTime => exact h.lastTime
  case pc =>
    -- The new entry is due after `processTimeEvents` was called.
    have hin : InTime event m.begun ⟨m.state.loop.timeEventNextId, m.clock + (event i).id, i⟩ := by
      intro _ hagain
      have := hpos hagain
      have := h.begun
      dsimp only
      omega
    dsimp only
    rw [hhead]
    apply h.pc.cons hin (Int.le_refl _)
    . rw [hloop]
      unfold aeCreateTimeEvent
      dsimp only
      omega
    . exact fun te hte hlive => Function.update_of_ne (hold te hte hlive) _ _

theorem AeKeeps.del (h : AeKeeps event m t) (htype : (event i).type = .time)
    (hel : (m.state.ctx i).el = true) (hnum : Numbered m.state i)
    : AeKeeps event { m with state := eventDel event m.state i } (t.next (.del i)) := by
  obtain ⟨hentries, hhas⟩ := h.entries.del htype hel hnum
  obtain ⟨hloop, hctx⟩ := eventDel_time event htype hel
  have hmem := fun te (hlive : TimeEvent.Live te) => h.entries.mem_go hnum hlive
  generalize eventDel event m.state i = s at hentries hhas hloop hctx ⊢
  have hhead : { m with state := s : AeTimers }.timeEventHead
      = aeDeleteTimeEvent.go (m.state.ctx i).mask.toInt m.timeEventHead :=
    congrArg Loop.timeEventHead hloop
  constructor
  case entries => exact hentries
  case el =>
    intro j hj
    dsimp only
    rw [hctx, Timer.State.next]
    by_cases heq : j = i
    . simp [heq]
    . rw [Function.update_of_ne heq, Function.update_of_ne heq]
      exact h.el j hj
  case log =>
    intro j l hl
    rw [Timer.State.next] at hl
    by_cases heq : j = i
    . rw [heq, Function.update_self] at hl
      contradiction
    . rw [Function.update_of_ne heq] at hl
      exact h.log j l hl
  case scheduled =>
    rw [hhead]
    intro te hte hlive hcur
    obtain ⟨hte, hne⟩ := (hmem te hlive).mp hte
    rw [Timer.State.next, Function.update_of_ne hne]
    exact h.scheduled te hte hlive hcur
  case has =>
    intro j l hl hagain
    rw [hhas]
    rw [Timer.State.next] at hl
    by_cases heq : j = i
    . rw [heq, Function.update_self] at hl
      contradiction
    . rw [Function.update_of_ne heq] at hl
      exact ⟨h.has j l hl hagain, heq⟩
  case begun => exact h.begun
  case lastTime => exact h.lastTime
  case pc =>
    dsimp only
    rw [hhead, hloop]
    exact h.pc.go fun te hte hlive => Function.update_of_ne ((hmem te hlive).mp hte).2 _ _

theorem AeKeeps.tick (h : AeKeeps event m t) (ms : Nat)
    : AeKeeps event { m with clock := m.clock + ms } t := by
  have hbegun := h.begun
  have hlast := h.lastTime
  constructor
  case entries => exact h.entries
  case el => exact h.el
  case log =>
    intro j l hl
    obtain ⟨htype, hpos, hdue, htime⟩ := h.log j l hl
    exact ⟨htype, hpos, hdue, by dsimp only; omega⟩
  case scheduled => exact h.scheduled
  case has => exact h.has
  case begun =>
    dsimp only
    omega
  case lastTime =>
    dsimp only
    omega
  case pc => exact h.pc

theorem AeKeeps.goto (h : AeKeeps event m t) (hcur : m.pc.current = none)
    (hpc : pc.Ok event m.begun m.timeEventHead m.state.loop.timeEventNextId t)
    : AeKeeps event { m with pc := pc } t where
  entries := h.entries
  el := h.el
  log := h.log
  scheduled te hte hlive _ := by
    apply h.scheduled te hte hlive
    rw [hcur]
    exact nofun
  has := h.has
  begun := h.begun
  lastTime := h.lastTime
  pc := hpc

theorem AeKeeps.processTimeEvents (h : AeKeeps event m t) (hidle : m.pc = .idle)
    : AeKeeps event m.processTimeEvents t := by
  have hlast := h.lastTime
  have hnext := h.entries.nextId
  unfold AeTimers.processTimeEvents
  dsimp only
  rw [if_neg (by omega)]
  constructor
  case entries => exact h.entries
  case el => exact h.el
  case log => exact h.log
  case scheduled =>
    intro te hte hlive _
    apply h.scheduled te hte hlive
    rw [hidle]
    exact nofun
  case has => exact h.has
  case begun => exact Int.le_refl _
  case lastTime => exact Int.le_refl _
  case pc =>
    constructor
    case le => exact ⟨Nat.le_refl _, Nat.le_refl _⟩
    case marked_le =>
      unfold AE_DELETED_EVENT_ID
      omega
    case inTime =>
      intro j te hj hlt
      change j + m.timeEventHead.length < m.timeEventHead.length at hlt
      omega
    case id_le =>
      intro j te hj _
      have := h.entries.id_lt te (List.mem_of_getElem? hj)
      omega

theorem Looked.erase (h : Looked event begun tes maxId (n + 1) (n + 1))
    : Looked event begun (tes.eraseIdx (tes.length - (n + 1))) maxId n n := by
  have hle := h.le
  have hlen : (tes.eraseIdx (tes.length - (n + 1))).length = tes.length - 1 :=
    List.length_eraseIdx_of_lt (by omega)
  constructor
  case le => omega
  case marked_le => exact h.marked_le
  case inTime =>
    intro j te hj hlt
    rw [List.getElem?_eraseIdx_of_lt (by omega)] at hj
    exact h.inTime j te hj (by omega)
  case id_le =>
    intro j te hj hlt
    rw [List.getElem?_eraseIdx_of_ge (by omega)] at hj
    exact h.id_le (j + 1) te hj (by omega)

theorem Looked.next (h : Looked event begun tes maxId (n + 1) (n + 1)) {te : TimeEvent}
    (hte : tes[tes.length - (n + 1)]? = some te) (hin : InTime event begun te)
    : Looked event begun tes maxId n n := by
  have hle := h.le
  constructor
  case le => omega
  case marked_le => exact h.marked_le
  case inTime =>
    intro j te' hj hlt
    by_cases heq : j = tes.length - (n + 1)
    . rw [heq, hte, Option.some.injEq] at hj
      subst hj
      exact hin
    . exact h.inTime j te' hj (by omega)
  case id_le => exact fun j te' hj hlt => h.id_le j te' hj (by omega)

theorem AeKeeps.unlink (h : AeKeeps event m t) (hpc : m.pc = .iterate maxId (n + 1)) {te : TimeEvent}
    (hte : m.timeEventHead[m.timeEventHead.length - (n + 1)]? = some te)
    (hid : te.id = AE_DELETED_EVENT_ID)
    : AeKeeps event { m with
        state := { m.state with
          loop := Ae.unlink m.state.loop (m.timeEventHead.length - (n + 1)) }
        pc := .iterate maxId n } t := by
  obtain ⟨hentries, hhas⟩ := h.entries.unlink (m.timeEventHead.length - (n + 1))
  have hlooked := h.pc
  rw [hpc] at hlooked
  have hhead : (Ae.unlink m.state.loop (m.timeEventHead.length - (n + 1))).timeEventHead
      = m.timeEventHead.eraseIdx (m.timeEventHead.length - (n + 1)) :=
    timeEventHead_unlink hte hid
  constructor
  case entries => exact hentries
  case el => exact h.el
  case log => exact h.log
  case scheduled =>
    intro te' hte' hlive _
    apply h.scheduled te' ((mem_unlink m.state.loop _ hlive).mp hte') hlive
    rw [hpc]
    exact nofun
  case has => exact fun j l hl hagain => (hhas j).mpr (h.has j l hl hagain)
  case begun => exact h.begun
  case lastTime => exact h.lastTime
  case pc =>
    change Looked event m.begun (Ae.unlink m.state.loop _).timeEventHead maxId n n
    rw [hhead]
    exact Looked.erase hlooked

theorem eventTimeHandler_eq (e : Event) : eventTimeHandler e = e.id := by
  rfl

theorem mem_timeEventHead {j : Nat} {te : TimeEvent} (hte : m.timeEventHead[j]? = some te)
    : te ∈ m.state.loop.timeEventHead :=
  List.mem_of_getElem? hte

theorem Looked.current (h : Looked event begun tes maxId (n + 1) (n + 1))
    : Looked event begun tes maxId (n + 1) n where
  le := ⟨Nat.le_succ n, h.le.2⟩
  marked_le := h.marked_le
  inTime := h.inTime
  id_le := fun j te hj hlt => h.id_le j te hj (Nat.le_succ_of_le hlt)

theorem Entries.calling {s : State} (h : Entries event s) {k : Nat} {te : TimeEvent}
    (hte : s.loop.timeEventHead[k]? = some te) (hlive : te.Live)
    (hrunning : ∃ l, t te.clientData = some l ∧ l.running = true)
    : Calling s.loop.timeEventHead s.loop.timeEventNextId t k te.id te.clientData where
  id_lt := h.id_lt te (List.mem_of_getElem? hte)
  id_ne := hlive
  only := fun _ _ hj heq => (h.distinct.getElem?_inj hte hj hlive heq.symm).symm
  entry := ⟨te, hte, rfl, fun _ => ⟨rfl, hrunning⟩⟩

theorem AeKeeps.run (h : AeKeeps event m t) (hpc : m.pc = .iterate maxId (n + 1)) {te : TimeEvent}
    (hte : m.timeEventHead[m.timeEventHead.length - (n + 1)]? = some te) (hlive : te.Live)
    (hdue : te.due ≤ m.clock)
    : (timerSpec event fun ms => ms).Allowed t (.run te.clientData te.due m.clock)
        ∧ AeKeeps event { m with
            pc := .timeProc maxId n te.id te.clientData (eventTimeHandler (event te.clientData)) }
          (t.next (.run te.clientData te.due m.clock)) := by
  have hmem := mem_timeEventHead hte
  have hlooked : Looked event m.begun m.timeEventHead maxId (n + 1) (n + 1) := by
    have := h.pc
    rw [hpc] at this
    exact this
  obtain ⟨l, hl, -, hlow, hhigh, hruns⟩ := h.scheduled te hmem hlive (by
    rw [hpc]
    exact nofun)
  constructor
  . refine ⟨l, hl, hlow, hhigh, hdue, fun hagain => hruns ?_⟩
    unfold Again
    simpa [timerSpec] using hagain
  . constructor
    case entries => exact h.entries
    case el =>
      intro j hj
      rw [Timer.State.next]
      by_cases heq : j = te.clientData
      . rw [heq, Function.update_self, Option.isSome_map]
        exact h.el te.clientData (by rw [← heq]; exact hj)
      . rw [Function.update_of_ne heq]
        exact h.el j hj
    case log =>
      intro j l' hl'
      rw [Timer.State.next] at hl'
      by_cases heq : j = te.clientData
      . rw [heq, Function.update_self, hl, Option.map_some, Option.some.injEq] at hl'
        subst hl'
        obtain ⟨htype, hpos, -⟩ := h.log te.clientData l hl
        rw [heq]
        exact ⟨htype, hpos, hdue, Int.le_refl _⟩
      . rw [Function.update_of_ne heq] at hl'
        exact h.log j l' hl'
    case scheduled =>
      intro te' hte' hlive' hcur
      have hne : te'.clientData ≠ te.clientData := by
        intro heq
        apply hcur
        rw [h.entries.one te' hte' te hmem hlive' hlive heq]
        rfl
      rw [Timer.State.next, Function.update_of_ne hne]
      apply h.scheduled te' hte' hlive'
      rw [hpc]
      exact nofun
    case has =>
      intro j l' hl' hagain
      rw [Timer.State.next] at hl'
      by_cases heq : j = te.clientData
      . rw [heq]
        exact ⟨te, hmem, hlive, rfl⟩
      . rw [Function.update_of_ne heq] at hl'
        exact h.has j l' hl' hagain
    case begun => exact h.begun
    case lastTime => exact h.lastTime
    case pc =>
      refine ⟨eventTimeHandler_eq _, hlooked.current, h.entries.calling hte hlive ?_⟩
      refine ⟨⟨l.runs + 1, true, te.due, m.clock⟩, ?_, rfl⟩
      rw [Timer.State.next, Function.update_self, hl, Option.map_some]

theorem AeKeeps.iterate (h : AeKeeps event m t) (hpc : m.pc = .iterate maxId n)
    : (timerSpec event fun ms => ms).Keeps (AeKeeps event) t (AeTimers.iterate event m maxId n) := by
  have hcur : m.pc.current = none := by rw [hpc]; rfl
  have hlooked : Looked event m.begun m.timeEventHead maxId n n := by
    have := h.pc
    rw [hpc] at this
    exact this
  unfold AeTimers.iterate
  split
  . refine ⟨?_, h.goto hcur trivial⟩
    intro i l hl hagain
    have hagain' : Again event i := by
      unfold Again
      simpa [timerSpec] using hagain
    obtain ⟨te, hte, hlive, rfl⟩ := h.has i l hl hagain'
    obtain ⟨l', hl', -, -, hhigh, -⟩ := h.scheduled te hte hlive (by rw [hcur]; exact nofun)
    rw [hl, Option.some.injEq] at hl'
    subst hl'
    obtain ⟨j, hj⟩ := List.mem_iff_getElem?.mp hte
    have hlt := (List.getElem?_eq_some_iff.mp hj).1
    exact Int.le_trans (hlooked.inTime j te hj hlt hlive hagain') hhigh
  . next n =>
    dsimp only
    have hle := hlooked.le
    have hlt : m.timeEventHead.length - (n + 1) < m.timeEventHead.length := by omega
    split
    . next hnone =>
      rw [List.getElem?_eq_none_iff] at hnone
      omega
    . next te hte =>
      split
      . next hid => exact h.unlink hpc hte hid
      . next hlive =>
        split
        . next hnew =>
          have := hlooked.id_le _ te hte (by omega)
          omega
        . split
          . next hdue => exact h.run hpc hte hlive hdue
          . next hdue =>
            apply h.goto hcur
            apply hlooked.next hte
            have := h.begun
            exact fun _ _ => by omega

def rearm (m : AeTimers) (retval : Int) (te : TimeEvent) : TimeEvent :=
  if retval ≠ AE_NOMORE then { te with due := m.clock + retval } else { te with id := AE_DELETED_EVENT_ID }

theorem rearm_of_live {retval : Int} {te : TimeEvent} (hlive : (rearm m retval te).Live)
    : retval ≠ AE_NOMORE ∧ rearm m retval te = { te with due := m.clock + retval } := by
  unfold rearm at hlive ⊢
  split
  . next h => exact ⟨h, rfl⟩
  . next h =>
    rw [if_neg h] at hlive
    exact absurd rfl hlive

theorem getElem?_rearm {retval : Int} {j k : Nat} {te' : TimeEvent}
    (h : (m.timeEventHead.modify k (rearm m retval))[j]? = some te')
    : ∃ te, m.timeEventHead[j]? = some te ∧ te' = if k = j then rearm m retval te else te := by
  rw [List.getElem?_modify, Option.map_eq_map, Option.map_eq_some_iff] at h
  obtain ⟨te, hte, heq⟩ := h
  exact ⟨te, hte, heq.symm⟩

theorem getElem?_rearm_of_live {retval : Int} {j k : Nat} {te' : TimeEvent}
    (h : (m.timeEventHead.modify k (rearm m retval))[j]? = some te') (hlive : te'.Live)
    : ∃ te, m.timeEventHead[j]? = some te ∧ te.Live ∧ te'.id = te.id ∧ te'.clientData = te.clientData
        ∧ (k ≠ j → te' = te) ∧ (k = j → retval ≠ AE_NOMORE ∧ te'.due = m.clock + retval) := by
  obtain ⟨te, hte, rfl⟩ := getElem?_rearm h
  by_cases hk : k = j
  . rw [if_pos hk] at hlive ⊢
    obtain ⟨hret, heq⟩ := rearm_of_live hlive
    rw [heq] at hlive ⊢
    exact ⟨te, hte, hlive, rfl, rfl, fun hne => absurd hk hne, fun _ => ⟨hret, rfl⟩⟩
  . rw [if_neg hk] at hlive ⊢
    exact ⟨te, hte, hlive, rfl, rfl, fun _ => rfl, fun heq => absurd heq hk⟩

theorem AeKeeps.calls_again (h : AeKeeps event m t) {id : Int} {te : TimeEvent} (hte : te ∈ m.timeEventHead)
    (hlive : te.Live) (hrunning : te.Live → te.id = id ∧ ∃ l, t i = some l ∧ l.running = true)
    (honce : ¬Again event i → (∀ te ∈ m.timeEventHead, te.id ≠ id) ∨ (event i).id = AE_NOMORE)
    (hne : (event i).id ≠ AE_NOMORE)
    : Again event i ∧ 0 < (event i).id ∧ ∃ l, t i = some l ∧ l.running = true ∧ l.due ≤ m.clock := by
  obtain ⟨hid, l, hl, hrun⟩ := hrunning hlive
  obtain ⟨-, hpos, hdue, htime⟩ := h.log i l hl
  have hagain : Again event i := by
    by_contra hi
    rcases honce hi with hgone | hnomore
    . exact hgone te hte hid
    . exact hne hnomore
  exact ⟨hagain, hpos hagain, l, hl, hrun, Int.le_trans hdue htime⟩

theorem AeKeeps.log_done (h : AeKeeps event m t) {j : Nat} {l' : Timer.Log Int}
    (hl' : t.next (.done i m.clock) j = some l')
    : (event j).type = .time ∧ (Again event j → 0 < (event j).id) ∧ l'.due ≤ l'.time
        ∧ l'.time ≤ m.clock := by
  obtain ⟨l, hl, rfl⟩ := (t.next_done_eq_some_iff i j m.clock l').mp hl'
  obtain ⟨htype, hpos, hdue, htime⟩ := h.log j l hl
  refine ⟨htype, hpos, ?_⟩
  split
  . obtain ⟨-, hdue', htime' | htime'⟩ := l.done_eq m.clock
    . rw [hdue', htime']
      exact ⟨hdue, htime⟩
    . rw [hdue', htime']
      exact ⟨Int.le_trans hdue htime, Int.le_refl _⟩
  . exact ⟨hdue, htime⟩

theorem AeKeeps.has_done (h : AeKeeps event m t) {k : Nat} {te₀ : TimeEvent}
    (hte₀ : m.timeEventHead[k]? = some te₀) {j : Nat} {l : Timer.Log Int} (hl : t j = some l)
    (hj : Again event j)
    : ∃ te ∈ m.timeEventHead.modify k (rearm m (event te₀.clientData).id), te.Live ∧ te.clientData = j := by
  obtain ⟨te, hte, hlive, rfl⟩ := h.has j l hl hj
  obtain ⟨p, hp⟩ := List.mem_iff_getElem?.mp hte
  change m.timeEventHead[p]? = some te at hp
  have hnew : (m.timeEventHead.modify k (rearm m (event te₀.clientData).id))[p]?
      = some (if k = p then rearm m (event te₀.clientData).id te else te) := by
    rw [List.getElem?_modify, hp]
    rfl
  refine ⟨_, List.mem_of_getElem? hnew, ?_⟩
  split
  . next hk =>
    rw [← hk, hte₀, Option.some.injEq] at hp
    rw [hp]
    -- The interval is no `AE_NOMORE`.
    have hpos := (h.log te.clientData l hl).2.1 hj
    have hne : (event te.clientData).id ≠ AE_NOMORE := by
      unfold AE_NOMORE
      omega
    unfold rearm
    rw [if_pos hne]
    exact ⟨hlive, rfl⟩
  . exact ⟨hlive, rfl⟩

theorem Looked.rearm {retval : Int} (h : Looked event begun m.timeEventHead maxId (n + 1) n)
    (hbegun : begun ≤ m.clock)
    (hpos : ∀ te, m.timeEventHead[m.timeEventHead.length - (n + 1)]? = some te → te.Live
      → retval ≠ AE_NOMORE → 0 < retval)
    : Looked event begun (m.timeEventHead.modify (m.timeEventHead.length - (n + 1)) (rearm m retval))
        maxId n n := by
  have hle := h.le
  constructor
  case le =>
    rw [List.length_modify]
    omega
  case marked_le => exact h.marked_le
  case inTime =>
    intro j te' hj hlt hlive hi
    rw [List.length_modify] at hlt
    obtain ⟨te, hte, hlive', hid, hdata, hsame, hcur⟩ := getElem?_rearm_of_live hj hlive
    by_cases hk : m.timeEventHead.length - (n + 1) = j
    . obtain ⟨hne, hdue⟩ := hcur hk
      rw [← hk] at hte
      have := hpos te hte hlive' hne
      omega
    . have heq := hsame hk
      subst heq
      exact h.inTime j te' hte (by omega) hlive' hi
  case id_le =>
    intro j te' hj hlt
    rw [List.length_modify] at hlt
    obtain ⟨te, hte, rfl⟩ := getElem?_rearm hj
    rw [if_neg (by omega)]
    exact h.id_le j te hte hlt

theorem AeKeeps.done (h : AeKeeps event m t) {id retval : Int} (hpc : m.pc = .timeProc maxId n id i retval)
    (honce : ¬Again event i → (∀ te ∈ m.timeEventHead, te.id ≠ id) ∨ retval = AE_NOMORE)
    : AeKeeps event (m.done maxId n i retval).1 (t.next (.done i m.clock)) := by
  obtain ⟨rfl, hlooked, hcalling⟩ : retval = (event i).id
      ∧ Looked event m.begun m.timeEventHead maxId (n + 1) n
      ∧ Calling m.timeEventHead m.state.loop.timeEventNextId t (m.timeEventHead.length - (n + 1)) id i := by
    have := h.pc
    rw [hpc] at this
    exact this
  obtain ⟨te₀, hte₀, hdata₀, hrunning⟩ := hcalling.entry
  have hhead : (m.done maxId n i (event i).id).1.timeEventHead
      = m.timeEventHead.modify (m.timeEventHead.length - (n + 1)) (rearm m (event i).id) := rfl
  have hagain : te₀.Live → (event i).id ≠ AE_NOMORE
      → Again event i ∧ 0 < (event i).id ∧ ∃ l, t i = some l ∧ l.running = true ∧ l.due ≤ m.clock :=
    fun hlive hne => h.calls_again (mem_timeEventHead hte₀) hlive hrunning honce hne
  constructor
  case entries =>
    apply h.entries.of_places (by rfl) (by rfl)
    intro j te' hj hlive
    obtain ⟨te, hte, -, hid, hdata, -⟩ := getElem?_rearm_of_live hj hlive
    exact ⟨te, hte, hid, hdata⟩
  case el =>
    intro j hj
    rw [Timer.State.isSome_next_done]
    exact h.el j hj
  case log => exact fun j l' hl' => h.log_done hl'
  case scheduled =>
    rw [hhead]
    intro te' hte' hlive _
    obtain ⟨j, hj⟩ := List.mem_iff_getElem?.mp hte'
    obtain ⟨te, hte, hlive', hid, hdata, hsame, hcur⟩ := getElem?_rearm_of_live hj hlive
    by_cases hk : m.timeEventHead.length - (n + 1) = j
    . obtain ⟨hne, hdue⟩ := hcur hk
      rw [← hk, hte₀, Option.some.injEq] at hte
      subst hte
      obtain ⟨hi, -, l, hl, hrun, hclock⟩ := hagain hlive' hne
      rw [hdata, hdata₀, hdue]
      refine ⟨_, (t.next_done_eq_some_iff i i m.clock _).mpr ⟨l, hl, rfl⟩, ?_⟩
      rw [if_pos rfl, Timer.Log.done_of_running hrun]
      refine ⟨rfl, ?_, Int.le_refl _, fun hnot => absurd hi hnot⟩
      dsimp only
      omega
    . have heq := hsame hk
      subst heq
      have hne : m.pc.current ≠ some te'.id := by
        rw [hpc]
        intro heq
        rw [AePc.current, Option.some.injEq] at heq
        exact hk (hcalling.only j te' hte heq.symm).symm
      obtain ⟨l, hl, hrun, hbounds⟩ := h.scheduled te' (mem_timeEventHead hte) hlive' hne
      exact ⟨l, Timer.State.next_done_of_not_running hl hrun m.clock, hrun, hbounds⟩
  case has =>
    intro j l' hl' hi
    obtain ⟨l, hl, -⟩ := (t.next_done_eq_some_iff i j m.clock l').mp hl'
    rw [← hdata₀]
    exact h.has_done hte₀ hl hi
  case begun => exact h.begun
  case lastTime => exact h.lastTime
  case pc =>
    apply hlooked.rearm h.begun
    intro te hte hlive hne
    rw [hte₀, Option.some.injEq] at hte
    subst hte
    exact (hagain hlive hne).2.1

def AePc.Deleted (event : Nat → Event) (tes : List TimeEvent) : AePc → Prop
  | .timeProc _ _ id i _ => ¬Again event i → (∀ te ∈ tes, te.id ≠ id) ∨ (event i).id = AE_NOMORE
  | _ => True

/--
The interval of a timer that is to be called again is positive, a timer is deleted by its number, and the
handler of a timer that is to be called once deletes it.
-/
def Deletes (event : Nat → Event) (m : AeTimers) : AeAct → Prop
  | .eventAdd i _ => (event i).type = .time → Again event i → 0 < (event i).id
  | .eventDel i => (event i).type = .time → (m.state.ctx i).el = true → Numbered m.state i
  | .done => m.pc.Deleted event m.timeEventHead
  | _ => True

theorem AeKeeps.eventAdd (h : AeKeeps event m t) (o : Outcome)
    (hpos : (event i).type = .time → Again event i → 0 < (event i).id)
    : (timerSpec event fun ms => ms).Keeps (AeKeeps event) t (AeTimers.step event m (.eventAdd i o)) := by
  unfold AeTimers.step
  dsimp only
  split
  . by_cases hadd : (event i).type = .time ∧ (m.state.ctx i).el = false
    . rw [if_pos hadd]
      exact ⟨trivial, h.add o hadd.1 hadd.2 (hpos hadd.1)⟩
    . rw [if_neg hadd]
      by_cases htype : (event i).type = .time
      . have hel : (m.state.ctx i).el = true := by
          rw [← Bool.not_eq_false]
          exact fun hel => hadd ⟨htype, hel⟩
        have heq : (Ev.eventAdd event m.state i { o with now := m.clock }).2 = m.state := by
          unfold Ev.eventAdd
          rw [if_pos hel]
        rw [heq]
        exact h
      . obtain ⟨hnext, hhead, hctx⟩ := eventAdd_of_not_time (s := m.state) { o with now := m.clock } htype
        exact h.of_eq hnext hhead fun j hj => by rw [hctx j hj]
  . exact h

theorem AeKeeps.eventDel (h : AeKeeps event m t)
    (hnum : (event i).type = .time → (m.state.ctx i).el = true → Numbered m.state i)
    : (timerSpec event fun ms => ms).Keeps (AeKeeps event) t (AeTimers.step event m (.eventDel i)) := by
  unfold AeTimers.step
  dsimp only
  split
  . by_cases hdel : (event i).type = .time ∧ (m.state.ctx i).el = true
    . rw [if_pos hdel]
      exact ⟨trivial, h.del hdel.1 hdel.2 (hnum hdel.1 hdel.2)⟩
    . rw [if_neg hdel]
      by_cases htype : (event i).type = .time
      . have hel : (m.state.ctx i).el = false := by
          rw [← Bool.not_eq_true]
          exact fun hel => hdel ⟨htype, hel⟩
        rw [eventDel_of_not_el event hel]
        exact h
      . obtain ⟨hnext, hhead, hctx⟩ := eventDel_of_not_time (s := m.state) htype
        exact h.of_eq hnext hhead fun j hj => by rw [hctx j hj]
  . exact h

theorem AeKeeps.step (h : AeKeeps event m t) {a : AeAct} (ha : Deletes event m a)
    : (timerSpec event fun ms => ms).Keeps (AeKeeps event) t (AeTimers.step event m a) := by
  cases a with
  | eventAdd i o => exact h.eventAdd o ha
  | eventDel i => exact h.eventDel ha
  | tick ms => exact h.tick ms
  | processTimeEvents =>
    unfold AeTimers.step
    dsimp only
    split
    . next hidle => exact h.processTimeEvents hidle
    . exact h
  | iterate =>
    unfold AeTimers.step
    dsimp only
    split
    . next maxId n hpc => exact h.iterate hpc
    . exact h
  | done =>
    unfold AeTimers.step
    dsimp only
    split
    . next maxId n id i retval hpc =>
      have hret : retval = (event i).id := by
        have := h.pc
        rw [hpc] at this
        exact this.1
      have hdeleted : m.pc.Deleted event m.timeEventHead := ha
      rw [hpc] at hdeleted
      refine ⟨trivial, h.done hpc fun hi => ?_⟩
      rw [hret]
      exact hdeleted hi
    . exact h

theorem aeKeeps_new (event : Nat → Event) (setsize clock : Int)
    : AeKeeps event (.new event setsize clock) fun _ => none where
  entries := entries_new event setsize
  el _ _ := Iff.rfl
  log _ _ h := by contradiction
  scheduled _ h := by contradiction
  has _ _ h := by contradiction
  begun := Int.le_refl _
  lastTime := Int.le_refl _
  pc := trivial

end

end Xsocks.Ev
