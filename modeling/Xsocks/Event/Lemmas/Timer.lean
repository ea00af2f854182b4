import Mathlib.Data.List.Pairwise
import Xsocks.Event.Impl.Event
import Xsocks.Lib.Run

/-!
This module contains the timers that are registered with the loop, and when `eventDel` cancels the one
it is called for.
-/

namespace Xsocks.Ae

def TimeEvent.Live (te : TimeEvent) : Prop :=
  te.id ≠ AE_DELETED_EVENT_ID

section

variable {id : Int} {tes : List TimeEvent}

theorem mem_go_of_ne {te : TimeEvent} (h : te ∈ tes) (hne : te.id ≠ id)
    : te ∈ aeDeleteTimeEvent.go id tes := by
  induction tes with
  | nil => contradiction
  | cons t tes ih =>
    unfold aeDeleteTimeEvent.go
    rw [List.mem_cons] at h
    split
    . next hid =>
      rcases h with rfl | h
      . contradiction
      . exact List.mem_cons_of_mem _ h
    . rcases h with rfl | h
      . exact List.mem_cons_self
      . exact List.mem_cons_of_mem _ (ih h)

theorem mem_of_mem_go {te : TimeEvent} (h : te ∈ aeDeleteTimeEvent.go id tes) (hlive : te.Live)
    : te ∈ tes := by
  induction tes with
  | nil => exact h
  | cons t tes ih =>
    unfold aeDeleteTimeEvent.go at h
    split at h
    . rw [List.mem_cons] at h
      rcases h with rfl | h
      . exact absurd rfl hlive
      . exact List.mem_cons_of_mem _ h
    . rw [List.mem_cons] at h
      rcases h with rfl | h
      . exact List.mem_cons_self
      . exact List.mem_cons_of_mem _ (ih h)

def Distinct (tes : List TimeEvent) : Prop :=
  tes.Pairwise fun te te' => te.Live → te'.Live → te.id ≠ te'.id

theorem Distinct.go (h : Distinct tes) : Distinct (aeDeleteTimeEvent.go id tes) := by
  induction tes with
  | nil => exact h
  | cons t tes ih =>
    unfold Distinct at h ih ⊢
    rw [List.pairwise_cons] at h
    unfold aeDeleteTimeEvent.go
    split
    . rw [List.pairwise_cons]
      exact ⟨fun te _ hlive => absurd rfl hlive, h.2⟩
    . rw [List.pairwise_cons]
      exact ⟨fun te hte hlive hlive' => h.1 te (mem_of_mem_go hte hlive') hlive hlive', ih h.2⟩

-- The first entry with the number is the only one.
theorem Distinct.id_ne_of_mem_go (h : Distinct tes) {te : TimeEvent}
    (hte : te ∈ aeDeleteTimeEvent.go id tes) (hlive : te.Live)
    : te.id ≠ id := by
  induction tes with
  | nil => contradiction
  | cons t tes ih =>
    unfold Distinct at h ih
    rw [List.pairwise_cons] at h
    unfold aeDeleteTimeEvent.go at hte
    split at hte
    . next hid =>
      rw [List.mem_cons] at hte
      rcases hte with rfl | hte
      . exact absurd rfl hlive
      . intro heq
        have ht : t.Live := by
          unfold TimeEvent.Live at hlive ⊢
          rw [hid, ← heq]
          exact hlive
        exact h.1 te hte ht hlive (hid.trans heq.symm)
    . next hid =>
      rw [List.mem_cons] at hte
      rcases hte with rfl | hte
      . exact hid
      . exact ih h.2 hte

theorem Distinct.eq_of_id_eq (h : Distinct tes) {te te' : TimeEvent} (hte : te ∈ tes) (hte' : te' ∈ tes)
    (hlive : te.Live) (heq : te.id = te'.id)
    : te = te' := by
  have hlive' : te'.Live := by
    unfold TimeEvent.Live at hlive ⊢
    rw [← heq]
    exact hlive
  have hsymm : Std.Symm fun te te' : TimeEvent => te.Live → te'.Live → te.id ≠ te'.id :=
    ⟨fun _ _ hne h' h => (hne h h').symm⟩
  by_contra hne
  exact List.Pairwise.forall h hte hte' hne hlive hlive' heq

end

end Xsocks.Ae

namespace Xsocks.Ev

open Ae

def next (event : Nat → Event) (s : State) (op : Op) : Except Empty State :=
  .ok (step event s op)

/-- No entry for `i` is left after `eventDel`, and all entries for other events are. -/
structure Cancels (event : Nat → Event) (s : State) (i : Nat) : Prop where
  cancelled : ∀ te ∈ (eventDel event s i).loop.timeEventHead, te.Live → te.clientData ≠ i
  others : ∀ te ∈ s.loop.timeEventHead, te.Live → te.clientData ≠ i
    → te ∈ (eventDel event s i).loop.timeEventHead

def InRange (event : Nat → Event) (s : State) : Op → Prop
  | .add i _ => (event i).type = .time → (s.ctx i).el = false → s.loop.timeEventNextId < 2 ^ 31
  | .del _ => True
  | .unlink _ => True

structure Timers (event : Nat → Event) (s : State) : Prop where
  nextId : 0 ≤ s.loop.timeEventNextId
  id_lt : ∀ te ∈ s.loop.timeEventHead, te.id < s.loop.timeEventNextId
  distinct : Distinct s.loop.timeEventHead
  owner : ∀ te ∈ s.loop.timeEventHead, te.Live → (event te.clientData).type = .time
    ∧ (s.ctx te.clientData).el = true ∧ (s.ctx te.clientData).mask.toInt = te.id
  entry : ∀ i, (event i).type = .time → (s.ctx i).el = true
    → ∃ te ∈ s.loop.timeEventHead, te.Live ∧ te.id = (s.ctx i).mask.toInt ∧ te.clientData = i

section

variable {event : Nat → Event} {s : State}

theorem timers_new (event : Nat → Event) (setsize : Int) : Timers event (.new event setsize) where
  nextId := Int.le_refl 0
  id_lt _ h := by contradiction
  distinct := List.Pairwise.nil
  owner _ h := by contradiction
  entry _ _ h := by contradiction

theorem Timers.of_eq (h : Timers event s) {s' : State}
    (hnext : s'.loop.timeEventNextId = s.loop.timeEventNextId)
    (hhead : s'.loop.timeEventHead = s.loop.timeEventHead)
    (hctx : ∀ i, (event i).type = .time → s'.ctx i = s.ctx i)
    : Timers event s' where
  nextId := by
    rw [hnext]
    exact h.nextId
  id_lt := by
    rw [hnext, hhead]
    exact h.id_lt
  distinct := by
    rw [hhead]
    exact h.distinct
  owner te hte hlive := by
    rw [hhead] at hte
    obtain ⟨htype, howner⟩ := h.owner te hte hlive
    rw [hctx _ htype]
    exact ⟨htype, howner⟩
  entry i htype hel := by
    rw [hctx i htype] at hel ⊢
    rw [hhead]
    exact h.entry i htype hel

theorem toInt_ofInt_of_lt {id : Int} (h : 0 ≤ id) (hlt : id < 2 ^ 31) : (BitVec.ofInt 32 id).toInt = id := by
  rw [BitVec.toInt_ofInt]
  apply Int.bmod_eq_of_le <;> omega

variable (event) in
theorem eventAdd_time {i : Nat} (o : Outcome) (htype : (event i).type = .time) (hel : (s.ctx i).el = false)
    : (eventAdd event s i o).2.loop = (aeCreateTimeEvent s.loop (event i).id i o.now).2
      ∧ (eventAdd event s i o).2.ctx
        = Function.update s.ctx i ⟨true, BitVec.ofInt 32 s.loop.timeEventNextId⟩ := by
  unfold eventAdd
  rw [if_neg (by simp [hel])]
  unfold eventApiAddEvent
  dsimp only
  rw [htype]
  dsimp only
  split
  . simp [State.setMask, State.setEl, aeCreateTimeEvent]
  . simp [State.setMask, State.setEl, aeCreateTimeEvent]

-- The `long long` is the same number after it has been stored in `mask`.
theorem Timers.add (h : Timers event s) {i : Nat} (o : Outcome) (htype : (event i).type = .time)
    (hel : (s.ctx i).el = false) (hlt : s.loop.timeEventNextId < 2 ^ 31)
    : Timers event (eventAdd event s i o).2 := by
  have hmask := toInt_ofInt_of_lt h.nextId hlt
  -- An entry of the list is not the new one, and belongs to another event.
  have hne : ∀ te ∈ s.loop.timeEventHead, te.Live → te.clientData ≠ i := by
    intro te hte hlive heq
    have howner := (h.owner te hte hlive).2.1
    rw [heq, hel] at howner
    contradiction
  obtain ⟨hloop, hctx⟩ := eventAdd_time event o htype hel
  unfold aeCreateTimeEvent at hloop
  constructor
  case nextId =>
    have := h.nextId
    rw [hloop]
    dsimp only
    omega
  case id_lt =>
    rw [hloop]
    intro te hte
    rw [List.mem_cons] at hte
    rcases hte with rfl | hte
    . dsimp only
      omega
    . have := h.id_lt te hte
      dsimp only
      omega
  case distinct =>
    rw [hloop]
    apply List.Pairwise.cons
    . intro te hte _ _
      have := h.id_lt te hte
      dsimp only
      omega
    . exact h.distinct
  case owner =>
    rw [hloop, hctx]
    intro te hte hlive
    rw [List.mem_cons] at hte
    rcases hte with rfl | hte
    . rw [Function.update_self]
      exact ⟨htype, rfl, hmask⟩
    . rw [Function.update_of_ne (hne te hte hlive)]
      exact h.owner te hte hlive
  case entry =>
    rw [hloop, hctx]
    intro j htype' hel'
    by_cases hj : j = i
    . subst hj
      refine ⟨_, List.mem_cons_self, ?_, ?_, rfl⟩
      . have := h.nextId
        unfold TimeEvent.Live AE_DELETED_EVENT_ID
        dsimp only
        omega
      . rw [Function.update_self, hmask]
    . rw [Function.update_of_ne hj] at hel' ⊢
      obtain ⟨te, hte, hentry⟩ := h.entry j htype' hel'
      exact ⟨te, List.mem_cons_of_mem _ hte, hentry⟩

variable (event) in
theorem eventDel_time {i : Nat} (htype : (event i).type = .time) (hel : (s.ctx i).el = true)
    : (eventDel event s i).loop = aeDeleteTimeEvent s.loop (s.ctx i).mask.toInt
      ∧ (eventDel event s i).ctx = Function.update s.ctx i { s.ctx i with el := false } := by
  unfold eventDel
  rw [if_pos hel]
  unfold eventApiDelEvent
  dsimp only
  rw [htype]
  exact ⟨rfl, rfl⟩

variable (event) in
theorem eventDel_of_not_el {i : Nat} (hel : (s.ctx i).el = false) : eventDel event s i = s := by
  unfold eventDel
  rw [hel]
  rfl

theorem Timers.cancels (h : Timers event s) {i : Nat} (htype : (event i).type = .time)
    : Cancels event s i := by
  by_cases hel : (s.ctx i).el = true
  . obtain ⟨hloop, -⟩ := eventDel_time event htype hel
    obtain ⟨entry, hentry, hlive, hid, howner⟩ := h.entry i htype hel
    unfold aeDeleteTimeEvent at hloop
    constructor
    case cancelled =>
      rw [hloop]
      intro te hte hlive' heq
      have hmask := (h.owner te (mem_of_mem_go hte hlive') hlive').2.2
      rw [heq] at hmask
      exact h.distinct.id_ne_of_mem_go hte hlive' hmask.symm
    case others =>
      rw [hloop]
      intro te hte hlive' hne
      apply mem_go_of_ne hte
      intro heq
      have := h.distinct.eq_of_id_eq hte hentry hlive' (heq.trans hid.symm)
      rw [this] at hne
      contradiction
  . rw [Bool.not_eq_true] at hel
    have heq := eventDel_of_not_el event hel
    constructor
    case cancelled =>
      rw [heq]
      intro te hte hlive hdata
      have howner := (h.owner te hte hlive).2.1
      rw [hdata, hel] at howner
      contradiction
    case others =>
      rw [heq]
      exact fun te hte _ _ => hte

theorem Timers.del (h : Timers event s) {i : Nat} (htype : (event i).type = .time)
    : Timers event (eventDel event s i) := by
  have hcancels := h.cancels htype
  by_cases hel : (s.ctx i).el = true
  . obtain ⟨hloop, hctx⟩ := eventDel_time event htype hel
    have hmem : ∀ te ∈ (eventDel event s i).loop.timeEventHead, te.Live
        → te ∈ s.loop.timeEventHead := by
      rw [hloop]
      exact fun te hte hlive => mem_of_mem_go hte hlive
    constructor
    case nextId =>
      rw [hloop]
      exact h.nextId
    case id_lt =>
      intro te hte
      by_cases hlive : te.Live
      . rw [hloop]
        exact h.id_lt te (hmem te hte hlive)
      . have hnext := h.nextId
        unfold TimeEvent.Live AE_DELETED_EVENT_ID at hlive
        rw [hloop]
        unfold aeDeleteTimeEvent
        dsimp only
        omega
    case distinct =>
      rw [hloop]
      exact h.distinct.go
    case owner =>
      intro te hte hlive
      rw [hctx, Function.update_of_ne (hcancels.cancelled te hte hlive)]
      exact h.owner te (hmem te hte hlive) hlive
    case entry =>
      rw [hctx]
      intro j htype' hel'
      by_cases hj : j = i
      . subst hj
        rw [Function.update_self] at hel'
        contradiction
      . rw [Function.update_of_ne hj] at hel' ⊢
        obtain ⟨te, hte, hlive, hid, howner⟩ := h.entry j htype' hel'
        refine ⟨te, hcancels.others te hte hlive ?_, hlive, hid, howner⟩
        rw [howner]
        exact hj
  . rw [Bool.not_eq_true] at hel
    rw [eventDel_of_not_el event hel]
    exact h

-- A file event or a signal has no entry.
theorem eventAdd_of_not_time {i : Nat} (o : Outcome) (htype : (event i).type ≠ .time)
    : (eventAdd event s i o).2.loop.timeEventNextId = s.loop.timeEventNextId
      ∧ (eventAdd event s i o).2.loop.timeEventHead = s.loop.timeEventHead
      ∧ ∀ j, (event j).type = .time → (eventAdd event s i o).2.ctx j = s.ctx j := by
  have hctx : ∀ j, (event j).type = .time → (s.setEl i true).ctx j = s.ctx j := by
    intro j hj
    apply Function.update_of_ne
    intro heq
    rw [heq] at hj
    contradiction
  unfold eventAdd
  split
  . exact ⟨rfl, rfl, fun _ _ => rfl⟩
  . unfold eventApiAddEvent
    dsimp only
    split
    . split
      . exact ⟨rfl, rfl, hctx⟩
      . next loop heq =>
        unfold aeCreateFileEvent at heq
        split at heq
        . contradiction
        . split at heq
          . contradiction
          . cases heq
            exact ⟨rfl, rfl, hctx⟩
    . contradiction
    . split
      . exact ⟨rfl, rfl, hctx⟩
      . split <;> exact ⟨rfl, rfl, hctx⟩

theorem eventDel_of_not_time {i : Nat} (htype : (event i).type ≠ .time)
    : (eventDel event s i).loop.timeEventNextId = s.loop.timeEventNextId
      ∧ (eventDel event s i).loop.timeEventHead = s.loop.timeEventHead
      ∧ ∀ j, (event j).type = .time → (eventDel event s i).ctx j = s.ctx j := by
  have hctx : ∀ s' : State, ∀ j, (event j).type = .time → (s'.setEl i false).ctx j = s'.ctx j := by
    intro s' j hj
    apply Function.update_of_ne
    intro heq
    rw [heq] at hj
    contradiction
  unfold eventDel
  split
  . unfold eventApiDelEvent
    dsimp only
    split
    . unfold aeDeleteFileEvent
      split
      . exact ⟨rfl, rfl, hctx _⟩
      . dsimp only
        split
        . exact ⟨rfl, rfl, hctx _⟩
        . exact ⟨rfl, rfl, hctx _⟩
    . contradiction
    . exact ⟨rfl, rfl, hctx _⟩
  . exact ⟨rfl, rfl, fun _ _ => rfl⟩

theorem mem_unlink (el : Loop) (k : Nat) {te : TimeEvent} (hlive : te.Live)
    : te ∈ (Ae.unlink el k).timeEventHead ↔ te ∈ el.timeEventHead := by
  unfold Ae.unlink
  split
  . next te' hte' =>
    split
    . next hid =>
      dsimp only
      refine ⟨(List.eraseIdx_sublist _ _).mem, fun hte => ?_⟩
      obtain ⟨n, hn⟩ := List.mem_iff_getElem?.mp hte
      have hne : n ≠ k := by
        intro heq
        rw [heq, hte', Option.some.injEq] at hn
        rw [hn] at hid
        exact hlive hid
      exact List.mem_eraseIdx_iff_getElem?.mpr ⟨n, hne, hn⟩
    . exact Iff.rfl
  . exact Iff.rfl

theorem unlink_sublist (el : Loop) (k : Nat)
    : (Ae.unlink el k).timeEventNextId = el.timeEventNextId
      ∧ (Ae.unlink el k).timeEventHead.Sublist el.timeEventHead := by
  unfold Ae.unlink
  split
  . split
    . exact ⟨rfl, List.eraseIdx_sublist _ _⟩
    . exact ⟨rfl, List.Sublist.refl _⟩
  . exact ⟨rfl, List.Sublist.refl _⟩

theorem Timers.unlink (h : Timers event s) (k : Nat)
    : Timers event { s with loop := Ae.unlink s.loop k } := by
  obtain ⟨hnext, hsub⟩ := unlink_sublist s.loop k
  constructor
  case nextId =>
    rw [hnext]
    exact h.nextId
  case id_lt =>
    rw [hnext]
    exact fun te hte => h.id_lt te (hsub.mem hte)
  case distinct => exact h.distinct.sublist hsub
  case owner => exact fun te hte => h.owner te (hsub.mem hte)
  case entry =>
    intro i htype hel
    obtain ⟨te, hte, hlive, hentry⟩ := h.entry i htype hel
    exact ⟨te, (mem_unlink s.loop k hlive).mpr hte, hlive, hentry⟩

theorem Timers.step (h : Timers event s) {op : Op} (hop : InRange event s op)
    : Timers event (step event s op) := by
  cases op with
  | unlink k => exact h.unlink k
  | add i o =>
    by_cases hel : (s.ctx i).el = true
    . unfold Ev.step eventAdd
      dsimp only
      rw [if_pos hel]
      exact h
    . rw [Bool.not_eq_true] at hel
      by_cases htype : (event i).type = .time
      . exact h.add o htype hel (hop htype hel)
      . obtain ⟨hnext, hhead, hctx⟩ := eventAdd_of_not_time (s := s) o htype
        exact h.of_eq hnext hhead hctx
  | del i =>
    by_cases htype : (event i).type = .time
    . exact h.del htype
    . obtain ⟨hnext, hhead, hctx⟩ := eventDel_of_not_time (s := s) htype
      exact h.of_eq hnext hhead hctx

end

/-- If the number of each timer fits in an `int`, `eventDel` cancels the timer and no other one. -/
theorem eventDel_cancels {event : Nat → Event} {setsize : Int} {ops : List Op}
    (h : Run.Along (next event) (InRange event) (.new event setsize) ops)
    : ∃ s, Run.run (next event) (.new event setsize) ops = .ok s
        ∧ ∀ i, (event i).type = .time → Cancels event s i := by
  have hstep : ∀ s op, Timers event s → InRange event s op
      → ∃ s', next event s op = .ok s' ∧ Timers event s' :=
    fun s op hs hop => ⟨_, rfl, hs.step hop⟩
  obtain ⟨s, heq, hs⟩ := Run.exists_run hstep (timers_new event setsize) h
  exact ⟨s, heq, fun i htype => hs.cancels htype⟩

def timers (_ : Nat) : Event :=
  ⟨60000, .time, 1⟩

theorem eventDel_cancels_first
    : ∃ s, Run.run (next timers) (.new timers 1024) [.add 0 {}, .add 1 {}] = .ok s
        ∧ ∀ i, (timers i).type = .time → Cancels timers s i := by
  apply eventDel_cancels
  refine ⟨fun _ _ => by decide, ?_⟩
  rintro _ ⟨⟩
  refine ⟨fun _ _ => by decide, ?_⟩
  rintro _ ⟨⟩
  trivial

def cycles : Nat → List Op
  | 0 => []
  | n + 1 => .add 0 {} :: .del 0 :: cycles n

theorem nextId_cycles (n : Nat) {s : State} (hel : (s.ctx 0).el = false)
    : ((cycles n).foldl (step timers) s).loop.timeEventNextId = s.loop.timeEventNextId + n
      ∧ (((cycles n).foldl (step timers) s).ctx 0).el = false := by
  induction n generalizing s with
  | zero =>
    constructor
    . simp [cycles]
    . exact hel
  | succ n ih =>
    obtain ⟨hloop, hctx⟩ := eventAdd_time timers {} (i := 0) rfl hel
    have hel' : ((step timers s (.add 0 {})).ctx 0).el = true := by
      unfold step
      rw [hctx, Function.update_self]
    obtain ⟨hloop', hctx'⟩ := eventDel_time timers (i := 0) rfl hel'
    have hstep := ih (s := step timers (step timers s (.add 0 {})) (.del 0)) (by
      unfold step at hctx' ⊢
      rw [hctx', Function.update_self])
    have hnext : (step timers (step timers s (.add 0 {})) (.del 0)).loop.timeEventNextId
        = s.loop.timeEventNextId + 1 := by
      unfold step at hloop' ⊢
      rw [hloop']
      unfold aeDeleteTimeEvent
      dsimp only
      rw [hloop]
      rfl
    rw [hnext] at hstep
    refine ⟨?_, hstep.2⟩
    unfold cycles
    rw [List.foldl_cons, List.foldl_cons, hstep.1]
    push_cast
    omega

-- The number is negative as an `int`, and the entry has it as a `long long`.
theorem not_cancels_cycles {n : Nat} (hn : (n : Int) = 2 ^ 31)
    : ¬Cancels timers ((cycles n ++ [Op.add 0 {}]).foldl (step timers) (.new timers 1024)) 0 := by
  obtain ⟨hid, hel⟩ := nextId_cycles n (s := .new timers 1024) rfl
  have hnext : (State.new timers 1024).loop.timeEventNextId = 0 := rfl
  rw [hnext, hn, Int.zero_add] at hid
  rw [List.foldl_append]
  generalize (cycles n).foldl (step timers) (.new timers 1024) = s at hid hel
  intro h
  obtain ⟨hloop, hctx⟩ := eventAdd_time timers {} (i := 0) rfl hel
  have hel' : ((step timers s (.add 0 {})).ctx 0).el = true := by
    unfold step
    rw [hctx, Function.update_self]
  obtain ⟨hloop', -⟩ := eventDel_time timers (i := 0) rfl hel'
  have hcancelled := h.cancelled
  rw [List.foldl_cons, List.foldl_nil, hloop'] at hcancelled
  unfold step aeDeleteTimeEvent at hcancelled
  dsimp only at hcancelled
  rw [hloop, hctx, Function.update_self] at hcancelled
  unfold aeCreateTimeEvent aeDeleteTimeEvent.go at hcancelled
  rw [hid, if_neg (by decide)] at hcancelled
  apply hcancelled _ List.mem_cons_self
  . unfold TimeEvent.Live
    decide
  . rfl

theorem eventDel_leaves_timer
    : ¬Cancels timers ((cycles (2 ^ 31) ++ [Op.add 0 {}]).foldl (step timers) (.new timers 1024)) 0 :=
  not_cancels_cycles (by norm_cast)

end Xsocks.Ev
