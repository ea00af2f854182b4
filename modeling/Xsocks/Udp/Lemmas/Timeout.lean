import Xsocks.Tcp.Lemmas.Ciphertext
import Xsocks.Udp.Lemmas.Basic

/-!
This module contains what becomes of the timer of a connection under calls of `tcpSetTimeout` or
`udpSetTimeout` and reads that restart it.
-/

namespace Xsocks

open Wp Run

namespace Timer

def InRange (timeout : Int) : Prop :=
  -2 ^ 31 ≤ timeout * 1000 ∧ timeout * 1000 < 2 ^ 31

structure Installed (t : Timer) (timeout : Int) (t' : Timer) : Prop where
  on : 0 < timeout → t'.te = some ⟨timeout * 1000, true⟩ ∧ InRange t.timeout
  off : timeout ≤ 0 → t'.te = none
  earlier : ∀ e ∈ t'.lost, e.registered = false

/-- A timer that was never set to a positive value after `tcpInit`. -/
structure Untouched (t : Timer) : Prop where
  te : 0 < t.timeout → ∃ ms, t.te = some ⟨ms, true⟩
  lost : t.lost = []

variable {t : Timer}

theorem untouched_init (timeout : Int) : (init timeout).Untouched := by
  unfold init
  split
  . next h => exact ⟨fun _ => ⟨_, rfl⟩, rfl⟩
  . next h => exact ⟨fun h' => absurd h' h, rfl⟩

theorem Untouched.restart (h : t.Untouched) : t.del.add.Untouched := by
  constructor
  case te =>
    intro hpos
    have hpos : 0 < t.del.timeout := hpos
    obtain ⟨ms, heq⟩ := h.te hpos
    refine ⟨ms, ?_⟩
    have hdel : t.del.te = some ⟨ms, false⟩ := by simp [del, heq]
    unfold add
    dsimp only
    rw [if_pos hpos, hdel]
    rfl
  case lost => exact h.lost

theorem Untouched.off (h : t.Untouched) {timeout : Int} (hle : timeout ≤ 0)
    : (t.set timeout).Untouched ∧ t.Installed timeout (t.set timeout) := by
  have hneg : ¬0 < timeout := by omega
  have hset : (t.set timeout).te = none ∧ (t.set timeout).lost = [] ∧ (t.set timeout).timeout = timeout := by
    unfold set
    dsimp only
    rw [dif_neg hneg]
    exact ⟨rfl, h.lost, rfl⟩
  constructor
  . refine ⟨?_, hset.2.1⟩
    rw [hset.2.2]
    intro hpos
    contradiction
  . refine ⟨fun hpos => absurd hpos hneg, fun _ => hset.1, ?_⟩
    rw [hset.2.1]
    simp

theorem Untouched.not_installed (h : t.Untouched) {timeout : Int} (hpos : 0 < timeout)
    : ¬t.Installed timeout (t.set timeout) := by
  intro hinst
  have hon := (hinst.on hpos).1
  have hearlier := hinst.earlier
  unfold set at hon hearlier
  dsimp only at hon hearlier
  rw [dif_pos hpos] at hon hearlier
  simp only [Option.some.injEq, TimeEvent.mk.injEq] at hon
  have heq : t.timeout = timeout := by omega
  obtain ⟨ms, hte⟩ := h.te (by omega)
  dsimp only at hearlier
  rw [if_neg (by omega), hte] at hearlier
  have := hearlier ⟨ms, true⟩ (by simp)
  contradiction

end Timer

section

variable {σ α ε : Type} {step : σ → α → Except ε σ} {I : σ → Prop} {timer : σ → Timer}
  {argument : α → Option Int}

def AllInstalled (step : σ → α → Except ε σ) (timer : σ → Timer) (argument : α → Option Int) (s : σ)
    (as : List α) : Prop :=
  Along step (fun s a => ∀ timeout, argument a = some timeout
    → ∀ s', step s a = .ok s' → (timer s).Installed timeout (timer s')) s as

def AllOff (step : σ → α → Except ε σ) (argument : α → Option Int) (s : σ) (as : List α) : Prop :=
  Along step (fun _ a => ∀ timeout, argument a = some timeout → timeout ≤ 0) s as

theorem allInstalled_iff
    (hset : ∀ s a timeout, I s → argument a = some timeout
      → ∃ s', step s a = .ok s' ∧ I s' ∧ timer s' = (timer s).set timeout)
    (hread : ∀ s a s', I s → argument a = none → step s a = .ok s'
      → I s' ∧ timer s' = (timer s).del.add)
    {s : σ} (hs : I s) (ht : (timer s).Untouched) (as : List α)
    : AllInstalled step timer argument s as ↔ AllOff step argument s as := by
  induction as generalizing s with
  | nil => exact Iff.rfl
  | cons a as ih =>
    unfold AllInstalled AllOff at ih ⊢
    rw [Along, Along]
    cases harg : argument a with
    | none =>
      simp only [reduceCtorEq, false_implies, implies_true, true_and]
      apply forall_congr'
      intro s'
      apply imp_congr_right
      intro heq
      obtain ⟨hs', ht'⟩ := hread s a s' hs harg heq
      exact ih hs' (by rw [ht']; exact ht.restart)
    | some timeout =>
      obtain ⟨s₁, heq, hs₁, ht₁⟩ := hset s a timeout hs harg
      simp only [Option.some.injEq, forall_eq', heq, Except.ok.injEq, ht₁]
      by_cases hle : timeout ≤ 0
      . obtain ⟨huntouched, hinst⟩ := ht.off hle
        rw [ih hs₁ (by rw [ht₁]; exact huntouched)]
        simp [hinst, hle]
      . have hpos : 0 < timeout := by omega
        have hnot := ht.not_installed hpos
        simp [hnot, hle]

end

section

variable {κ : Type}

inductive TimerCall (κ : Type) where
  | tcpSetTimeout (timeout : Int)
  | tcpRead (off : Nat) (bufLen : Int) (inp : Inputs κ)

def TimerCall.argument : TimerCall κ → Option Int
  | tcpSetTimeout timeout => some timeout
  | tcpRead _ _ _ => none

def timerCall (s : Side) (m : Machine κ) : TimerCall κ → Except Stop (Machine κ)
  | .tcpSetTimeout timeout =>
    match tcpSetTimeout s timeout m with
    | .ok _ m => .ok m
    | .error f _ => .error (.fault f)
  | .tcpRead off bufLen inp =>
    match tcpRead s off bufLen (m.withInp inp) with
    | .ok n m => if n = ERR then .error .TCP_ERR else .ok m
    | .error f _ => .error (.fault f)

variable {m : Machine κ} {s : Side}

theorem timerCall_tcpSetTimeout (hs : m.Usable s) (timeout : Int)
    : timerCall s m (.tcpSetTimeout timeout)
        = .ok (m.upd s fun c => { c with timer := c.timer.set timeout }) := by
  obtain ⟨m', heq, hm'⟩ := exists_ok_unit
    (Q := fun m' => m' = m.upd s fun c => { c with timer := c.timer.set timeout })
    ((wp_assign hs _ _).mpr rfl)
  rw [timerCall, tcpSetTimeout, heq, hm']

theorem timer_tcpRead (h : m.Alive) (hs : m.Usable s) {off : Nat} {bufLen : Int} {inp : Inputs κ}
    {m' : Machine κ} (heq : timerCall s m (.tcpRead off bufLen inp) = .ok m')
    : (m'.Alive ∧ m'.Usable s) ∧ (m'.conn s).timer = (m.conn s).timer.del.add := by
  have hwp : wp (tcpRead s off bufLen)
      (fun n m' => n ≠ ERR
        → (m'.Alive ∧ m'.Usable s) ∧ (m'.conn s).timer = (m.conn s).timer.del.add)
      (fun _ _ => True) (m.withInp inp) := by
    rw [wp_tcpRead (by simpa using h) (by simpa using hs)]
    dsimp only
    split
    . simp
    . split
      . simp
      . intro _
        refine ⟨⟨by simpa using h, by simpa using hs⟩, ?_⟩
        simp [Machine.restarted, Machine.received]
  unfold timerCall at heq
  dsimp only at heq
  split at heq
  . next n m₁ hread =>
    split at heq
    . contradiction
    . next hn =>
      rw [← Except.ok.inj heq]
      exact post_of_ok hwp hread hn
  . contradiction

theorem timerCalls_installed_iff (h : m.Alive) (hs : m.Usable s) {timeout : Int}
    (ht : (m.conn s).timer = .init timeout) (calls : List (TimerCall κ))
    : AllInstalled (timerCall s) (fun m => (m.conn s).timer) TimerCall.argument m calls
        ↔ AllOff (timerCall s) TimerCall.argument m calls := by
  apply allInstalled_iff (I := fun m : Machine κ => m.Alive ∧ m.Usable s)
  . intro m a timeout hm harg
    cases a with
    | tcpSetTimeout timeout' =>
      obtain rfl : timeout' = timeout := Option.some.inj harg
      refine ⟨_, timerCall_tcpSetTimeout hm.2 timeout', ⟨?_, ?_⟩, ?_⟩
      . simpa using hm.1
      . simpa using hm.2
      . simp
    | tcpRead off bufLen inp => contradiction
  . intro m a m' hm harg heq
    cases a with
    | tcpSetTimeout timeout => contradiction
    | tcpRead off bufLen inp => exact timer_tcpRead hm.1 hm.2 heq
  . exact ⟨h, hs⟩
  . rw [ht]
    exact Timer.untouched_init timeout

end

namespace Udp

inductive TimerCall where
  | udpSetTimeout (timeout : Int)
  | udpRead (bufLen : Nat) (inp : Inputs)

def TimerCall.argument : TimerCall → Option Int
  | udpSetTimeout timeout => some timeout
  | udpRead _ _ => none

def Machine.withInp (m : Machine) (inp : Inputs) : Machine :=
  { m with inp := inp }

/-- The sequence ends with a read that does not restart the timer. -/
def timerCall (s : Side) (m : Machine) : TimerCall → Except (Option Fault) Machine
  | .udpSetTimeout timeout =>
    match udpSetTimeout s timeout m with
    | .ok _ m => .ok m
    | .error f _ => .error (some f)
  | .udpRead bufLen inp =>
    match udpRead s bufLen (m.withInp inp) with
    | .ok (some _) m => .ok m
    | .ok none _ => .error none
    | .error f _ => .error (some f)

variable {m : Machine} {s : Side}

theorem timerCall_udpSetTimeout (hs : m.Usable s) (timeout : Int)
    : timerCall s m (.udpSetTimeout timeout)
        = .ok (m.upd s fun c => { c with timer := c.timer.set timeout }) := by
  obtain ⟨m', heq, hm'⟩ := exists_ok_unit
    (Q := fun m' => m' = m.upd s fun c => { c with timer := c.timer.set timeout })
    ((wp_assign hs _ _).mpr rfl)
  rw [timerCall, udpSetTimeout, heq, hm']

theorem timer_udpRead (h : s = .remote → m.Linked) {bufLen : Nat} {inp : Inputs} {m' : Machine}
    (heq : timerCall s m (.udpRead bufLen inp) = .ok m')
    : (s = .remote → m'.Linked) ∧ (m'.conn s).timer = (m.conn s).timer.del.add := by
  have hinp : s = .remote → (m.withInp inp).Linked := fun hs => ⟨(h hs).client, (h hs).remote, (h hs).conn⟩
  have hwp : wp (udpRead s bufLen)
      (fun r m' => r ≠ none
        → (s = .remote → m'.Linked) ∧ (m'.conn s).timer = (m.conn s).timer.del.add)
      (fun _ _ => True) (m.withInp inp) := by
    rw [wp_udpRead hinp]
    split
    . simp
    . next sa data _ =>
      split
      . simp
      . intro _
        refine ⟨fun hs => Machine.linked_received.mpr (hinp hs), ?_⟩
        cases s <;> rfl
  unfold timerCall at heq
  dsimp only at heq
  split at heq
  . next data m₁ hread =>
    rw [← Except.ok.inj heq]
    exact post_of_ok hwp hread (by simp)
  . contradiction
  . contradiction

theorem timerCalls_installed_iff (h : s = .remote → m.Linked) {timeout : Int}
    (ht : (m.conn s).timer = .init timeout) (calls : List TimerCall)
    : AllInstalled (timerCall s) (fun m => (m.conn s).timer) TimerCall.argument m calls
        ↔ AllOff (timerCall s) TimerCall.argument m calls := by
  apply allInstalled_iff (I := fun m : Machine => s = .remote → m.Linked)
  . intro m a timeout hm harg
    cases a with
    | udpSetTimeout timeout' =>
      obtain rfl : timeout' = timeout := Option.some.inj harg
      have hs : m.Usable s := fun hs => (hm hs).usable s hs
      refine ⟨_, timerCall_udpSetTimeout hs timeout', ?_, ?_⟩
      . intro hremote
        subst hremote
        exact ⟨(hm rfl).client, (hm rfl).remote, (hm rfl).conn⟩
      . cases s <;> rfl
    | udpRead bufLen inp => contradiction
  . intro m a m' hm harg heq
    cases a with
    | udpSetTimeout timeout => contradiction
    | udpRead bufLen inp => exact timer_udpRead hm heq
  . exact h
  . rw [ht]
    exact Timer.untouched_init timeout

end Udp

/-- A sequence of calls does what it is for exactly if it never switches the timer on. -/
theorem setTimeout_installs_iff {κ : Type}
    : (∀ (m : Machine κ) (s : Side) (timeout : Int) (calls : List (TimerCall κ)), m.Alive → m.Usable s
        → (m.conn s).timer = .init timeout
        → (AllInstalled (timerCall s) (fun m => (m.conn s).timer) TimerCall.argument m calls
          ↔ AllOff (timerCall s) TimerCall.argument m calls))
      ∧ (∀ (m : Udp.Machine) (s : Udp.Side) (timeout : Int) (calls : List Udp.TimerCall),
        (s = .remote → m.Linked) → (m.conn s).timer = .init timeout
        → (AllInstalled (Udp.timerCall s) (fun m => (m.conn s).timer) Udp.TimerCall.argument m calls
          ↔ AllOff (Udp.timerCall s) Udp.TimerCall.argument m calls)) := by
  constructor
  . intro m s timeout calls h hs ht
    exact timerCalls_installed_iff h hs ht calls
  . intro m s timeout calls h ht
    exact Udp.timerCalls_installed_iff h ht calls

theorem setTimeout_installs_off
    : let m : Machine Unit := .pair (.new .raw true 60) (.new .raw true 60) ()
      AllInstalled (timerCall .client) (fun m => (m.conn .client).timer) TimerCall.argument m
        [.tcpSetTimeout (-1), .tcpSetTimeout 0] := by
  intro m
  apply ((setTimeout_installs_iff (κ := Unit)).1 m .client 60 _ (Machine.alive_pair rfl rfl)
    (Machine.usable_pair rfl rfl .client) rfl).mpr
  refine ⟨?_, fun m' _ => ⟨?_, fun _ _ => trivial⟩⟩
  . intro timeout h
    have := Option.some.inj h
    omega
  . intro timeout h
    have := Option.some.inj h
    omega

/--
A timeout of a minute that is changed to half a minute still is a minute. If it is set to a minute once
more, then two events are in the loop.
-/
theorem setTimeout_not_installed
    : let m : Machine Unit := .pair (.new .raw true 60) (.new .raw true 60) ()
      (∃ m', timerCall .client m (.tcpSetTimeout 30) = .ok m'
          ∧ (m'.conn .client).timer.te = some ⟨60000, true⟩)
        ∧ ¬AllInstalled (timerCall .client) (fun m => (m.conn .client).timer) TimerCall.argument m
          [.tcpSetTimeout 30]
        ∧ (∃ m', timerCall .client m (.tcpSetTimeout 60) = .ok m'
          ∧ (m'.conn .client).timer.te = some ⟨60000, true⟩
          ∧ (m'.conn .client).timer.lost = [⟨60000, true⟩])
        ∧ ¬AllInstalled (timerCall .client) (fun m => (m.conn .client).timer) TimerCall.argument m
          [.tcpSetTimeout 60] := by
  intro m
  have hs : m.Usable .client := Machine.usable_pair rfl rfl .client
  have hnot : ∀ timeout, 0 < timeout
      → ¬AllInstalled (timerCall .client) (fun m => (m.conn .client).timer) TimerCall.argument m
        [.tcpSetTimeout timeout] := by
    intro timeout hpos h
    have ht : (m.conn .client).timer = .init 60 := rfl
    have hoff := (timerCalls_installed_iff (Machine.alive_pair rfl rfl) hs ht _).mp h
    have := hoff.1 timeout rfl
    omega
  exact ⟨⟨_, timerCall_tcpSetTimeout hs 30, rfl⟩, hnot 30 (by decide),
    ⟨_, timerCall_tcpSetTimeout hs 60, rfl, rfl⟩, hnot 60 (by decide)⟩

end Xsocks
