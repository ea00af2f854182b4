import Xsocks.Event.Lemmas.Timer

/-!
This module contains the entries of the timers that are registered with the loop, whatever their
numbers are.
-/

namespace Xsocks.Ae

theorem TimeEvent.Live.of_id_eq {te te' : TimeEvent} (h : te.Live) (heq : te.id = te'.id) : te'.Live := by
  unfold TimeEvent.Live at h ⊢
  rw [← heq]
  exact h

theorem Distinct.getElem?_inj {tes : List TimeEvent} (h : Distinct tes) {i j : Nat} {te te' : TimeEvent}
    (hi : tes[i]? = some te) (hj : tes[j]? = some te') (hlive : te.Live) (heq : te.id = te'.id)
    : i = j := by
  obtain ⟨hilt, rfl⟩ := List.getElem?_eq_some_iff.mp hi
  obtain ⟨hjlt, rfl⟩ := List.getElem?_eq_some_iff.mp hj
  have hpairs := List.pairwise_iff_getElem.mp h
  rcases Nat.lt_trichotomy i j with hlt | rfl | hlt
  . exact absurd heq (hpairs i j hilt hjlt hlt hlive (hlive.of_id_eq heq))
  . rfl
  . exact absurd heq.symm (hpairs j i hjlt hilt hlt (hlive.of_id_eq heq) hlive)

theorem distinct_of_getElem?_inj {tes : List TimeEvent}
    (h : ∀ (i j : Nat) te te', tes[i]? = some te → tes[j]? = some te' → te.Live → te.id = te'.id → i = j)
    : Distinct tes := by
  apply List.pairwise_iff_getElem.mpr
  intro i j hi hj hlt hlive _ heq
  have := h i j _ _ (List.getElem?_eq_getElem hi) (List.getElem?_eq_getElem hj) hlive heq
  omega

end Xsocks.Ae

namespace Xsocks.Ev

open Ae

def HasTimer (s : State) (i : Nat) : Prop :=
  ∃ te ∈ s.loop.timeEventHead, te.Live ∧ te.clientData = i

def Numbered (s : State) (i : Nat) : Prop :=
  ∀ te ∈ s.loop.timeEventHead, te.Live → (te.id = (s.ctx i).mask.toInt ↔ te.clientData = i)

structure Entries (event : Nat → Event) (s : State) : Prop where
  nextId : 0 ≤ s.loop.timeEventNextId
  id_lt : ∀ te ∈ s.loop.timeEventHead, te.id < s.loop.timeEventNextId
  distinct : Distinct s.loop.timeEventHead
  owner : ∀ te ∈ s.loop.timeEventHead, te.Live
    → (event te.clientData).type = .time ∧ (s.ctx te.clientData).el = true
  one : ∀ te ∈ s.loop.timeEventHead, ∀ te' ∈ s.loop.timeEventHead, te.Live → te'.Live
    → te.clientData = te'.clientData → te.id = te'.id

section

variable {event : Nat → Event} {s : State} {i : Nat}

theorem entries_new (event : Nat → Event) (setsize : Int) : Entries event (.new event setsize) where
  nextId := Int.le_refl 0
  id_lt _ h := by contradiction
  distinct := List.Pairwise.nil
  owner _ h := by contradiction
  one _ h := by contradiction

theorem Entries.of_eq (h : Entries event s) {s' : State}
    (hnext : s'.loop.timeEventNextId = s.loop.timeEventNextId)
    (hhead : s'.loop.timeEventHead = s.loop.timeEventHead)
    (hel : ∀ j, (event j).type = .time → (s'.ctx j).el = (s.ctx j).el)
    : Entries event s' where
  nextId := by
    rw [hnext]
    exact h.nextId
  id_lt := by
    rw [hnext, hhead]
    exact h.id_lt
  distinct := by
    rw [hhead]
    exact h.distinct
  owner te hte hlive := by
    rw [hhead] at hte
    obtain ⟨htype, howner⟩ := h.owner te hte hlive
    rw [hel _ htype]
    exact ⟨htype, howner⟩
  one := by
    rw [hhead]
    exact h.one

theorem Entries.of_places (h : Entries event s) {s' : State}
    (hnext : s'.loop.timeEventNextId = s.loop.timeEventNextId) (hctx : s'.ctx = s.ctx)
    (hplaces : ∀ (j : Nat) te', s'.loop.timeEventHead[j]? = some te' → te'.Live
      → ∃ te, s.loop.timeEventHead[j]? = some te ∧ te'.id = te.id ∧ te'.clientData = te.clientData)
    : Entries event s' where
  nextId := by
    rw [hnext]
    exact h.nextId
  id_lt te' hte' := by
    rw [hnext]
    by_cases hlive : te'.Live
    . obtain ⟨j, hj⟩ := List.mem_iff_getElem?.mp hte'
      obtain ⟨te, hte, hid, -⟩ := hplaces j te' hj hlive
      rw [hid]
      exact h.id_lt te (List.mem_of_getElem? hte)
    . have := h.nextId
      unfold TimeEvent.Live AE_DELETED_EVENT_ID at hlive
      omega
  distinct := by
    apply distinct_of_getElem?_inj
    intro i j ti tj hi hj hlive heq
    obtain ⟨te, hte, hid, -⟩ := hplaces i ti hi hlive
    obtain ⟨te', hte', hid', -⟩ := hplaces j tj hj (hlive.of_id_eq heq)
    rw [hid, hid'] at heq
    exact h.distinct.getElem?_inj hte hte' (hlive.of_id_eq hid) heq
  owner te' hte' hlive := by
    obtain ⟨j, hj⟩ := List.mem_iff_getElem?.mp hte'
    obtain ⟨te, hte, hid, hdata⟩ := hplaces j te' hj hlive
    rw [hctx, hdata]
    exact h.owner te (List.mem_of_getElem? hte) (hlive.of_id_eq hid)
  one ti hi tj hj hlive hlive' heq := by
    obtain ⟨i, hi⟩ := List.mem_iff_getElem?.mp hi
    obtain ⟨j, hj⟩ := List.mem_iff_getElem?.mp hj
    obtain ⟨te, hte, hid, hdata⟩ := hplaces i ti hi hlive
    obtain ⟨te', hte', hid', hdata'⟩ := hplaces j tj hj hlive'
    rw [hid, hid']
    rw [hdata, hdata'] at heq
    exact h.one te (List.mem_of_getElem? hte) te' (List.mem_of_getElem? hte') (hlive.of_id_eq hid)
      (hlive'.of_id_eq hid') heq

theorem hasTimer_congr {s' : State} (hhead : s'.loop.timeEventHead = s.loop.timeEventHead) (j : Nat)
    : HasTimer s' j ↔ HasTimer s j := by
  unfold HasTimer
  rw [hhead]

theorem Entries.not_hasTimer (h : Entries event s) (hel : (s.ctx i).el = false) : ¬HasTimer s i := by
  rintro ⟨te, hte, hlive, rfl⟩
  have := (h.owner te hte hlive).2
  rw [hel] at this
  contradiction

theorem Entries.add (h : Entries event s) (o : Outcome) (htype : (event i).type = .time)
    (hel : (s.ctx i).el = false)
    : Entries event (eventAdd event s i o).2
        ∧ ∀ j, HasTimer (eventAdd event s i o).2 j ↔ HasTimer s j ∨ j = i := by
  obtain ⟨hloop, hctx⟩ := eventAdd_time event o htype hel
  have hnew : ∀ te ∈ s.loop.timeEventHead, te.Live → te.clientData ≠ i :=
    fun te hte hlive heq => h.not_hasTimer hel ⟨te, hte, hlive, heq⟩
  have hnext := h.nextId
  unfold aeCreateTimeEvent at hloop
  constructor
  . constructor
    case nextId =>
      rw [hloop]
      dsimp only
      omega
    case id_lt =>
      rw [hloop]
      intro te hte
      rw [List.mem_cons] at hte
      rcases hte with rfl | hte
      . dsimp only
        omega
      . have := h.id_lt te hte
        dsimp only
        omega
    case distinct =>
      rw [hloop]
      refine List.Pairwise.cons ?_ h.distinct
      intro te hte _ _
      have := h.id_lt te hte
      dsimp only
      omega
    case owner =>
      rw [hloop, hctx]
      intro te hte hlive
      rw [List.mem_cons] at hte
      rcases hte with rfl | hte
      . rw [Function.update_self]
        exact ⟨htype, rfl⟩
      . rw [Function.update_of_ne (hnew te hte hlive)]
        exact h.owner te hte hlive
    case one =>
      rw [hloop]
      intro te hte te' hte' hlive hlive' heq
      rw [List.mem_cons] at hte hte'
      rcases hte with rfl | hte
      . rcases hte' with rfl | hte'
        . rfl
        . exact absurd heq.symm (hnew te' hte' hlive')
      . rcases hte' with rfl | hte'
        . exact absurd heq (hnew te hte hlive)
        . exact h.one te hte te' hte' hlive hlive' heq
  . intro j
    unfold HasTimer
    rw [hloop]
    constructor
    . rintro ⟨te, hte, hlive, rfl⟩
      rw [List.mem_cons] at hte
      rcases hte with rfl | hte
      . exact .inr rfl
      . exact .inl ⟨te, hte, hlive, rfl⟩
    . rintro (⟨te, hte, hj⟩ | rfl)
      . exact ⟨te, List.mem_cons_of_mem _ hte, hj⟩
      . refine ⟨_, List.mem_cons_self, ?_, rfl⟩
        unfold TimeEvent.Live AE_DELETED_EVENT_ID
        dsimp only
        omega

theorem Entries.mem_go (h : Entries event s) (hnum : Numbered s i) {te : TimeEvent} (hlive : te.Live)
    : te ∈ aeDeleteTimeEvent.go (s.ctx i).mask.toInt s.loop.timeEventHead
        ↔ te ∈ s.loop.timeEventHead ∧ te.clientData ≠ i := by
  constructor
  . intro hte
    have hmem := mem_of_mem_go hte hlive
    refine ⟨hmem, fun heq => ?_⟩
    exact h.distinct.id_ne_of_mem_go hte hlive ((hnum te hmem hlive).mpr heq)
  . rintro ⟨hte, hne⟩
    exact mem_go_of_ne hte fun heq => hne ((hnum te hte hlive).mp heq)

theorem Entries.del (h : Entries event s) (htype : (event i).type = .time) (hel : (s.ctx i).el = true)
    (hnum : Numbered s i)
    : Entries event (eventDel event s i)
        ∧ ∀ j, HasTimer (eventDel event s i) j ↔ HasTimer s j ∧ j ≠ i := by
  obtain ⟨hloop, hctx⟩ := eventDel_time event htype hel
  unfold aeDeleteTimeEvent at hloop
  constructor
  . constructor
    case nextId =>
      rw [hloop]
      exact h.nextId
    case id_lt =>
      rw [hloop]
      intro te hte
      by_cases hlive : te.Live
      . exact h.id_lt te (mem_of_mem_go hte hlive)
      . have := h.nextId
        unfold TimeEvent.Live AE_DELETED_EVENT_ID at hlive
        dsimp only
        omega
    case distinct =>
      rw [hloop]
      exact h.distinct.go
    case owner =>
      rw [hloop, hctx]
      intro te hte hlive
      obtain ⟨hmem, hne⟩ := (h.mem_go hnum hlive).mp hte
      rw [Function.update_of_ne hne]
      exact h.owner te hmem hlive
    case one =>
      rw [hloop]
      intro te hte te' hte' hlive hlive' heq
      exact h.one te (mem_of_mem_go hte hlive) te' (mem_of_mem_go hte' hlive') hlive hlive' heq
  . intro j
    unfold HasTimer
    rw [hloop]
    constructor
    . rintro ⟨te, hte, hlive, rfl⟩
      obtain ⟨hmem, hne⟩ := (h.mem_go hnum hlive).mp hte
      exact ⟨⟨te, hmem, hlive, rfl⟩, hne⟩
    . rintro ⟨⟨te, hte, hlive, rfl⟩, hne⟩
      exact ⟨te, (h.mem_go hnum hlive).mpr ⟨hte, hne⟩, hlive, rfl⟩

theorem Entries.numbered_of_del (h : Entries event s) (htype : (event i).type = .time)
    (hel : (s.ctx i).el = true) (hdel : ∀ j, HasTimer s j ∧ j ≠ i ↔ HasTimer (eventDel event s i) j)
    : Numbered s i := by
  obtain ⟨hloop, -⟩ := eventDel_time event htype hel
  unfold aeDeleteTimeEvent at hloop
  intro te hte hlive
  constructor
  . intro hid
    by_contra hne
    obtain ⟨te', hte', hlive', heq⟩ := (hdel te.clientData).mp ⟨⟨te, hte, hlive, rfl⟩, hne⟩
    rw [hloop] at hte'
    have hmem := mem_of_mem_go hte' hlive'
    have heq' := h.one te' hmem te hte hlive' hlive heq
    exact h.distinct.id_ne_of_mem_go hte' hlive' (heq'.trans hid)
  . intro hdata
    by_contra hne
    have hleft : HasTimer (eventDel event s i) i := by
      refine ⟨te, ?_, hlive, hdata⟩
      rw [hloop]
      exact mem_go_of_ne hte hne
    exact ((hdel i).mpr hleft).2 rfl

theorem timeEventHead_unlink {el : Loop} {k : Nat} {te : TimeEvent} (hte : el.timeEventHead[k]? = some te)
    (hid : te.id = AE_DELETED_EVENT_ID)
    : (Ae.unlink el k).timeEventHead = el.timeEventHead.eraseIdx k := by
  unfold Ae.unlink
  rw [hte]
  dsimp only
  rw [if_pos hid]

theorem unlink_files (el : Loop) (k : Nat)
    : (Ae.unlink el k).setsize = el.setsize ∧ (Ae.unlink el k).events = el.events := by
  unfold Ae.unlink
  split
  . split <;> exact ⟨rfl, rfl⟩
  . exact ⟨rfl, rfl⟩

theorem Entries.unlink (h : Entries event s) (k : Nat)
    : Entries event { s with loop := Ae.unlink s.loop k }
        ∧ ∀ j, HasTimer { s with loop := Ae.unlink s.loop k } j ↔ HasTimer s j := by
  obtain ⟨hnext, hsub⟩ := unlink_sublist s.loop k
  constructor
  . constructor
    case nextId =>
      rw [hnext]
      exact h.nextId
    case id_lt =>
      rw [hnext]
      exact fun te hte => h.id_lt te (hsub.mem hte)
    case distinct => exact h.distinct.sublist hsub
    case owner => exact fun te hte => h.owner te (hsub.mem hte)
    case one => exact fun te hte te' hte' => h.one te (hsub.mem hte) te' (hsub.mem hte')
  . intro j
    refine exists_congr fun te => ?_
    constructor
    . rintro ⟨hte, hlive, hj⟩
      exact ⟨(mem_unlink s.loop k hlive).mp hte, hlive, hj⟩
    . rintro ⟨hte, hlive, hj⟩
      exact ⟨(mem_unlink s.loop k hlive).mpr hte, hlive, hj⟩

end

end Xsocks.Ev
