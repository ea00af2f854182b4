import Xsocks.Core.Impl.Socket
import Xsocks.Core.Lemmas.Resolve
import Xsocks.Lib.Wp

/-!
This module contains the accounts of the descriptors that `netTcpNonBlockConnect` and `_netUdpServer`
open: the calls made for the entries, one entry after the other, and what is open at their end.
-/

namespace Xsocks

open Wp

/-! # System calls -/

def Outcome.ret : Outcome → Int
  | .ok v => v
  | .error _ => -1

def NetState.did (st : NetState) (c : Syscall) (r : Outcome) : NetState where
  errno :=
    match r with
    | .ok _ => st.errno
    | .error errno => errno
  err := st.err
  calls := st.calls ++ [(c, r)]

@[simp]
theorem NetState.did_calls (st : NetState) (c : Syscall) (r : Outcome)
    : (st.did c r).calls = st.calls ++ [(c, r)] := by
  rfl

variable {K : Kernel} {F : Empty → NetState → Prop} {st : NetState}

theorem wp_syscall (c : Syscall) (Q : Int → NetState → Prop)
    : wp (syscall K c) Q F st
        ↔ Q (Outcome.ret (K.outcome st.calls c)) (st.did c (K.outcome st.calls c)) := by
  rw [syscall, wp_bind, wp_get]
  cases K.outcome st.calls c <;> rfl

theorem wp_anetSetError (text : Errno → String) (Q : Unit → NetState → Prop)
    : wp (anetSetError text) Q F st ↔ Q () { st with err := text st.errno } := by
  rfl

def Syscall.isSetUp : Syscall → Bool
  | .setsockopt .. | .getfl .. | .setfl .. => true
  | _ => false

def SetUpFailed (calls : Calls) : Prop :=
  ∃ c errno, (c, .error errno) ∈ calls ∧ c.isSetUp = true

def AllSetUp (calls : Calls) : Prop :=
  ∀ c r, (c, r) ∈ calls → c.isSetUp = true

theorem AllSetUp.append {calls calls' : Calls} (h : AllSetUp calls) (h' : AllSetUp calls')
    : AllSetUp (calls ++ calls') := by
  intro c r hmem
  rcases List.mem_append.mp hmem with hmem | hmem
  . exact h c r hmem
  . exact h' c r hmem

theorem AllSetUp.ops {calls : Calls} (h : AllSetUp calls) : calls.ops = [] := by
  apply List.filterMap_eq_nil_iff.mpr
  rintro ⟨c, r⟩ hmem
  have := h c r hmem
  cases c <;> first | rfl | contradiction

theorem setUpFailed_append_iff (calls calls' : Calls)
    : SetUpFailed (calls ++ calls') ↔ SetUpFailed calls ∨ SetUpFailed calls' := by
  constructor
  . rintro ⟨c, errno, hmem, hc⟩
    rcases List.mem_append.mp hmem with hmem | hmem
    . exact .inl ⟨c, errno, hmem, hc⟩
    . exact .inr ⟨c, errno, hmem, hc⟩
  . rintro (⟨c, errno, hmem, hc⟩ | ⟨c, errno, hmem, hc⟩)
    . exact ⟨c, errno, List.mem_append_left _ hmem, hc⟩
    . exact ⟨c, errno, List.mem_append_right _ hmem, hc⟩

theorem setUpFailed_singleton_iff (c : Syscall) (r : Outcome)
    : SetUpFailed [(c, r)] ↔ c.isSetUp = true ∧ ∃ errno, r = .error errno := by
  constructor
  . rintro ⟨c', errno, hmem, hc⟩
    obtain ⟨rfl, rfl⟩ := Prod.mk.inj (List.mem_singleton.mp hmem)
    exact ⟨hc, errno, rfl⟩
  . rintro ⟨hc, errno, rfl⟩
    exact ⟨c, errno, List.mem_singleton_self _, hc⟩

/-- A function that prepares a socket: it reports an error if and only if one of its calls has failed. -/
def SetsUp (x : Sys Int) : Prop :=
  ∀ (F : Empty → NetState → Prop) (st : NetState),
    wp x (fun rc st' => ∃ calls, st'.calls = st.calls ++ calls ∧ AllSetUp calls
      ∧ (rc = OK ∧ ¬ SetUpFailed calls ∨ rc = ERR ∧ SetUpFailed calls)) F st

theorem wp_callOrErr (c : Syscall) (text : String) {Q : Int → NetState → Prop}
    (hok : ∀ st' v, st'.calls = st.calls ++ [(c, .ok v)] → Q OK st')
    (herr : ∀ st' errno, st'.calls = st.calls ++ [(c, .error errno)] → Q ERR st')
    : wp (callOrErr K c text) Q F st := by
  rw [callOrErr, wp_bind, wp_syscall]
  cases K.outcome st.calls c with
  | ok v =>
    have hne : Outcome.ret (.ok v) ≠ -1 := by
      rw [Outcome.ret]
      omega
    rw [if_neg hne]
    exact hok _ v rfl
  | error errno =>
    rw [if_pos (by rfl), wp_bind, wp_anetSetError]
    exact herr _ errno rfl

theorem setsUp_callOrErr (c : Syscall) (h : c.isSetUp = true) (text : String)
    : SetsUp (callOrErr K c text) := by
  have hall (r : Outcome) : AllSetUp [(c, r)] := by
    intro c' r' hmem
    rw [(Prod.mk.inj (List.mem_singleton.mp hmem)).1]
    exact h
  intro F st
  apply wp_callOrErr
  . intro st' v heq
    refine ⟨_, heq, hall _, .inl ⟨rfl, ?_⟩⟩
    rw [setUpFailed_singleton_iff]
    simp
  . intro st' errno heq
    refine ⟨_, heq, hall _, .inr ⟨rfl, ?_⟩⟩
    rw [setUpFailed_singleton_iff]
    exact ⟨h, errno, rfl⟩

theorem setsUp_ok : SetsUp (pure OK) := by
  intro F st
  refine ⟨[], by simp, ?_, .inl ⟨rfl, ?_⟩⟩
  . intro c r hmem
    simp at hmem
  . rintro ⟨c, errno, hmem, -⟩
    simp at hmem

theorem setsUp_anetNonBlock (fd : Int) : SetsUp (anetNonBlock K fd) := by
  intro F st
  have hall (r : Outcome) : AllSetUp [(.getfl fd, r)] := by
    intro c' r' hmem
    rw [(Prod.mk.inj (List.mem_singleton.mp hmem)).1]
    rfl
  rw [anetNonBlock, wp_bind, wp_syscall]
  cases K.outcome st.calls (.getfl fd) with
  | ok flags =>
    have hne : Outcome.ret (.ok flags) ≠ -1 := by
      rw [Outcome.ret]
      omega
    have hfirst : ¬ SetUpFailed [(.getfl fd, .ok flags)] := by
      rw [setUpFailed_singleton_iff]
      simp
    rw [if_neg hne]
    apply wp_mono (setsUp_callOrErr _ rfl _ F _) _ fun _ _ h => h
    rintro rc st' ⟨calls, heq, hset, hrc⟩
    refine ⟨_ :: calls, by rw [heq, NetState.did_calls, List.append_assoc]; rfl, (hall _).append hset, ?_⟩
    rw [← List.singleton_append, setUpFailed_append_iff]
    rcases hrc with ⟨hrc, hfail⟩ | ⟨hrc, hfail⟩
    . exact .inl ⟨hrc, fun h => h.elim hfirst hfail⟩
    . exact .inr ⟨hrc, .inr hfail⟩
  | error errno =>
    rw [if_pos (by rfl), wp_bind, wp_anetSetError]
    refine ⟨_, rfl, hall _, .inr ⟨rfl, ?_⟩⟩
    rw [setUpFailed_singleton_iff]
    exact ⟨rfl, errno, rfl⟩

/-! # Descriptors -/

namespace Calls

variable {calls calls' : Calls}

theorem ops_append (calls calls' : Calls) : Calls.ops (calls ++ calls') = calls.ops ++ calls'.ops := by
  exact List.filterMap_append ..

def open? (calls : Calls) : Option (List Int) :=
  Ledger.held calls.ops

theorem open?_append_setUp (h : AllSetUp calls') : open? (calls ++ calls') = calls.open? := by
  rw [open?, ops_append, h.ops, List.append_nil, open?]

theorem open?_append_none (c : Syscall) (r : Outcome) (h : fdOp (c, r) = none)
    : open? (calls ++ [(c, r)]) = calls.open? := by
  have hops : Calls.ops [(c, r)] = [] := by
    rw [ops, List.filterMap_cons, h]
    rfl
  rw [open?, ops_append, hops, List.append_nil, open?]

theorem open?_append_close {fds : List Int} {s : Int} (h : calls.open? = some (s :: fds)) (r : Outcome)
    : open? (calls ++ [(.close s, r)]) = some fds := by
  rw [open?, ops_append]
  cases r <;> exact Ledger.held_release h

end Calls

theorem Kernel.open?_append_socket {calls : Calls} {fds : List Int} (h : calls.open? = some fds)
    {domain type protocol s : Nat} (hs : K.outcome calls (.socket domain type protocol) = .ok s)
    : Calls.open? (calls ++ [(.socket domain type protocol, .ok s)]) = some ((s : Int) :: fds) := by
  rw [Calls.open?, Calls.ops_append]
  exact Ledger.held_acquire h (K.fresh _ _ _ _ _ _ h hs)

/-! # Entries -/

def AddrInfo.socketCall (p : AddrInfo) : Syscall :=
  .socket p.aiFamily p.aiSocktype p.aiProtocol

def Syscall.isSocket : Syscall → Bool
  | .socket .. => true
  | _ => false

def Attempt (p : AddrInfo) (calls : Calls) : Prop :=
  ∃ r rest, calls = (p.socketCall, r) :: rest ∧ ∀ c r', (c, r') ∈ rest → c.isSocket = false

def OpenedFor (p : AddrInfo) (s : Int) (calls : Calls) : Prop :=
  ∃ v : Nat, s = v ∧ (p.socketCall, .ok v) ∈ calls

theorem attempt_singleton (p : AddrInfo) (r : Outcome) : Attempt p [(p.socketCall, r)] :=
  ⟨r, [], rfl, by simp⟩

theorem Attempt.append {p : AddrInfo} {calls calls' : Calls} (h : Attempt p calls)
    (h' : ∀ c r, (c, r) ∈ calls' → c.isSocket = false)
    : Attempt p (calls ++ calls') := by
  obtain ⟨r, rest, rfl, hrest⟩ := h
  refine ⟨r, rest ++ calls', rfl, ?_⟩
  intro c r' hmem
  rcases List.mem_append.mp hmem with hmem | hmem
  . exact hrest c r' hmem
  . exact h' c r' hmem

theorem AllSetUp.not_isSocket {calls : Calls} (h : AllSetUp calls)
    : ∀ c r, (c, r) ∈ calls → c.isSocket = false := by
  intro c r hmem
  have := h c r hmem
  cases c <;> first | rfl | contradiction

theorem Attempt.concat {p : AddrInfo} {calls : Calls} (h : Attempt p calls) {c : Syscall}
    (hc : c.isSocket = false) (r : Outcome)
    : Attempt p (calls ++ [(c, r)]) := by
  apply h.append
  intro c' r' hmem
  rw [(Prod.mk.inj (List.mem_singleton.mp hmem)).1]
  exact hc

/-- The calls up to the one that connects or binds the socket `s`. -/
structure Prepared (st : NetState) (p : AddrInfo) (s : Int) (calls : Calls) (st' : NetState) : Prop where
  calls_eq : st'.calls = st.calls ++ calls
  opened : ∃ (v : Nat) (rest : Calls), s = v ∧ calls = (p.socketCall, .ok v) :: rest ∧ AllSetUp rest
  open_eq : st'.calls.open? = some [s]

namespace Prepared

variable {st' : NetState} {p : AddrInfo} {s : Int} {calls : Calls}

theorem attempt (h : Prepared st p s calls st') : Attempt p calls := by
  obtain ⟨v, rest, -, rfl, hrest⟩ := h.opened
  exact ⟨_, rest, rfl, hrest.not_isSocket⟩

theorem openedFor (h : Prepared st p s calls st') : OpenedFor p s calls := by
  obtain ⟨v, rest, hs, rfl, -⟩ := h.opened
  exact ⟨v, hs, List.mem_cons_self⟩

theorem ne_err (h : Prepared st p s calls st') : s ≠ ERR := by
  obtain ⟨v, -, rfl, -⟩ := h.opened
  unfold ERR
  omega

theorem isSetUp (h : Prepared st p s calls st') {c : Syscall} {r : Outcome} (hmem : (c, r) ∈ calls)
    (hc : c.isSocket = false)
    : c.isSetUp = true := by
  obtain ⟨v, rest, -, rfl, hrest⟩ := h.opened
  rcases List.mem_cons.mp hmem with heq | hmem
  . rw [(Prod.mk.inj heq).1] at hc
    contradiction
  . exact hrest c r hmem

theorem wp_bind_if {st₁ : NetState} {α : Type} {x : Sys Int} {a : α} {y : Sys α} {Q : α → NetState → Prop}
    (h : Prepared st p s calls st₁) (hfail : ¬ SetUpFailed calls) (hx : SetsUp x)
    (herr : ∀ calls' st', Prepared st p s calls' st' → SetUpFailed calls' → Q a st')
    (hok : ∀ calls' st', Prepared st p s calls' st' → ¬ SetUpFailed calls' → wp y Q F st')
    : wp (x >>= fun rc => if rc = ERR then pure a else y) Q F st₁ := by
  have hne : OK ≠ ERR := by decide
  rw [wp_bind]
  apply wp_mono (hx F st₁) _ fun _ _ h => h
  rintro rc st' ⟨more, heq, hset, hrc⟩
  have hprep : Prepared st p s (calls ++ more) st' := by
    obtain ⟨v, rest, hs, hcalls, hrest⟩ := h.opened
    constructor
    . rw [heq, h.calls_eq, List.append_assoc]
    . exact ⟨v, rest ++ more, hs, by rw [hcalls, List.cons_append], hrest.append hset⟩
    . rw [heq, Calls.open?_append_setUp hset]
      exact h.open_eq
  rcases hrc with ⟨rfl, hmore⟩ | ⟨rfl, hmore⟩
  . rw [if_neg hne]
    apply hok (calls ++ more) st' hprep
    rw [setUpFailed_append_iff]
    exact fun h => h.elim hfail hmore
  . rw [if_pos rfl]
    exact herr (calls ++ more) st' hprep ((setUpFailed_append_iff _ _).mpr (.inr hmore))

end Prepared

theorem not_setUpFailed_socket (p : AddrInfo) (r : Outcome) : ¬ SetUpFailed [(p.socketCall, r)] := by
  rw [setUpFailed_singleton_iff]
  simp [AddrInfo.socketCall, Syscall.isSetUp]

theorem wp_socket {α : Type} {p : AddrInfo} {a : Int → α} {y : Int → Sys α} {Q : α → NetState → Prop}
    (hopen : st.calls.open? = some [])
    (herr : ∀ errno st', st'.calls = st.calls ++ [(p.socketCall, .error errno)] →
      st'.calls.open? = some [] → Q (a (-1)) st')
    (hok : ∀ (s : Nat) st', Prepared st p s [(p.socketCall, .ok s)] st' → wp (y s) Q F st')
    : wp (syscall K p.socketCall >>= fun s => if s = -1 then pure (a s) else y s) Q F st := by
  rw [wp_bind, wp_syscall]
  cases hsocket : K.outcome st.calls p.socketCall with
  | error errno =>
    rw [if_pos (by rfl)]
    apply herr errno _ rfl
    rw [NetState.did_calls, Calls.open?_append_none _ _ rfl, hopen]
  | ok s =>
    have hs : (s : Int) ≠ -1 := by omega
    rw [Outcome.ret, if_neg hs]
    apply hok
    constructor
    . rfl
    . exact ⟨s, [], rfl, rfl, fun c r hmem => by simp at hmem⟩
    . exact K.open?_append_socket hopen hsocket

abbrev EntrySpec := BodyExit → AddrInfo → Int → Calls → Prop

def ExitState (exit : BodyExit) (s : Int) (calls : Calls) : Prop :=
  exit = .continue ∧ s = ERR ∧ calls.open? = some []
    ∨ exit ≠ .continue ∧ s ≠ ERR ∧ calls.open? = some [s]

def BodySpec (R : EntrySpec) (body : AddrInfo → Sys (BodyExit × Int)) : Prop :=
  ∀ (F : Empty → NetState → Prop) (st : NetState) (p : AddrInfo), st.calls.open? = some [] →
    wp (body p) (fun out st' => ∃ calls, st'.calls = st.calls ++ calls ∧ Attempt p calls
      ∧ R out.1 p out.2 calls ∧ ExitState out.1 out.2 st'.calls) F st

inductive Walk (R : EntrySpec)
    : List AddrInfo → BodyExit × Option AddrInfo × Int → List (AddrInfo × Calls) → Prop where
  | nil : Walk R [] (.continue, none, ERR) []
  | skip {p servinfo out calls tries} (ha : Attempt p calls) (hp : R .continue p ERR calls)
      (h : Walk R servinfo out tries)
      : Walk R (p :: servinfo) out ((p, calls) :: tries)
  | exit {p servinfo exit s calls} (ha : Attempt p calls) (hexit : exit ≠ .continue)
      (hp : R exit p s calls)
      : Walk R (p :: servinfo) (exit, some p, s) [(p, calls)]

def allCalls (tries : List (AddrInfo × Calls)) : Calls :=
  tries.flatMap Prod.snd

theorem wp_forEntries {R : EntrySpec} {body : AddrInfo → Sys (BodyExit × Int)} (h : BodySpec R body)
    (servinfo : List AddrInfo) (hopen : st.calls.open? = some [])
    : wp (forEntries body servinfo ERR) (fun out st' => ∃ tries, st'.calls = st.calls ++ allCalls tries
        ∧ Walk R servinfo out tries ∧ ExitState out.1 out.2.2 st'.calls) F st := by
  induction servinfo generalizing st with
  | nil => exact ⟨[], by simp [allCalls], .nil, .inl ⟨rfl, rfl, hopen⟩⟩
  | cons p servinfo ih =>
    rw [forEntries, wp_bind]
    apply wp_mono (h F st p hopen) _ fun _ _ h => h
    rintro ⟨exit, s⟩ st' ⟨calls, heq, ha, hp, hexit⟩
    rcases hexit with ⟨rfl, rfl, hnone⟩ | ⟨hne, hs, hone⟩
    . apply wp_mono (ih hnone) _ fun _ _ h => h
      rintro out st'' ⟨tries, heq', hwalk, hout⟩
      refine ⟨(p, calls) :: tries, ?_, .skip ha hp hwalk, hout⟩
      rw [heq', heq, List.append_assoc]
      rfl
    . have hend : wp (pure (exit, some p, s) : Sys (BodyExit × Option AddrInfo × Int)) (fun out st'' =>
          ∃ tries, st''.calls = st.calls ++ allCalls tries ∧ Walk R (p :: servinfo) out tries
            ∧ ExitState out.1 out.2.2 st''.calls) F st' :=
        ⟨[(p, calls)], by simp [allCalls, heq], .exit ha hne hp, .inr ⟨hne, hs, hone⟩⟩
      cases exit with
      | «continue» => contradiction
      | «break» => exact hend
      | gotoError => exact hend

/-! # `netTcpNonBlockConnect` -/

def Outcome.accepted (r : Outcome) : Prop :=
  (∃ v, r = .ok v) ∨ r = .error .EINPROGRESS

def Connected (calls : Calls) : Prop :=
  ∃ fd addr r, (.connect fd addr, r) ∈ calls ∧ Outcome.accepted r

def ConnectedTo (p : AddrInfo) (s : Int) (calls : Calls) : Prop :=
  ∃ r, (.connect s (p.aiAddr.read 0 p.aiAddrlen), r) ∈ calls ∧ Outcome.accepted r

def TcpEntry : EntrySpec
  | .continue, _, _, calls => ¬ SetUpFailed calls ∧ ¬ Connected calls
  | .gotoError, _, _, calls => SetUpFailed calls ∧ ¬ Connected calls
  | .break, p, s, calls => ¬ SetUpFailed calls ∧ OpenedFor p s calls ∧ ConnectedTo p s calls

theorem Prepared.not_connected {p : AddrInfo} {s : Int} {calls : Calls} {st' : NetState}
    (h : Prepared st p s calls st')
    : ¬ Connected calls := by
  rintro ⟨fd, addr, r, hmem, -⟩
  have := h.isSetUp hmem rfl
  contradiction

theorem Prepared.accepted {p : AddrInfo} {s : Int} {calls : Calls} {st₁ st' : NetState}
    (h : Prepared st p s calls st₁) (hfail : ¬ SetUpFailed calls) {r : Outcome} (hr : Outcome.accepted r)
    (heq : st'.calls = st₁.calls ++ [(.connect s (p.aiAddr.read 0 p.aiAddrlen), r)])
    : ∃ calls', st'.calls = st.calls ++ calls' ∧ Attempt p calls' ∧ TcpEntry .break p s calls'
        ∧ ExitState .break s st'.calls := by
  refine ⟨_, by rw [heq, h.calls_eq, List.append_assoc], h.attempt.concat rfl r, ⟨?_, ?_, ?_⟩,
    .inr ⟨by simp, h.ne_err, ?_⟩⟩
  . rw [setUpFailed_append_iff, setUpFailed_singleton_iff]
    simp [hfail, Syscall.isSetUp]
  . obtain ⟨v, hv, hmem⟩ := h.openedFor
    exact ⟨v, hv, List.mem_append_left _ hmem⟩
  . exact ⟨r, List.mem_append_right _ (List.mem_singleton_self _), hr⟩
  . rw [heq, Calls.open?_append_none _ _ rfl]
    exact h.open_eq

theorem Prepared.refused {p : AddrInfo} {s : Int} {calls : Calls} {st₁ st' : NetState}
    (h : Prepared st p s calls st₁) (hfail : ¬ SetUpFailed calls) {errno : Errno}
    (hr : errno ≠ .EINPROGRESS) {r : Outcome}
    (heq : st'.calls
      = st₁.calls ++ [(.connect s (p.aiAddr.read 0 p.aiAddrlen), .error errno)] ++ [(.close s, r)])
    : ∃ calls', st'.calls = st.calls ++ calls' ∧ Attempt p calls' ∧ TcpEntry .continue p ERR calls'
        ∧ ExitState .continue ERR st'.calls := by
  refine ⟨_, by rw [heq, h.calls_eq, List.append_assoc, List.append_assoc],
    h.attempt.append ?_, ⟨?_, ?_⟩, .inl ⟨rfl, rfl, ?_⟩⟩
  . intro c r' hmem
    simp only [List.singleton_append, List.mem_cons, Prod.mk.injEq, List.not_mem_nil, or_false] at hmem
    rcases hmem with ⟨rfl, -⟩ | ⟨rfl, -⟩ <;> rfl
  . rw [setUpFailed_append_iff, setUpFailed_append_iff, setUpFailed_singleton_iff,
      setUpFailed_singleton_iff]
    simp [hfail, Syscall.isSetUp]
  . rintro ⟨fd, addr, r', hmem, hr'⟩
    rcases List.mem_append.mp hmem with hmem | hmem
    . exact h.not_connected ⟨fd, addr, r', hmem, hr'⟩
    . simp only [List.singleton_append, List.mem_cons, Prod.mk.injEq, Syscall.connect.injEq, reduceCtorEq,
        false_and, List.not_mem_nil, or_false] at hmem
      rcases hr' with ⟨v, rfl⟩ | rfl
      . simp at hmem
      . simp only [Except.error.injEq] at hmem
        exact hr hmem.2.symm
  . rw [heq]
    apply Calls.open?_append_close
    rw [Calls.open?_append_none _ _ rfl]
    exact h.open_eq

theorem tcp_bodySpec (K : Kernel) : BodySpec TcpEntry (netTcpNonBlockConnect.body K) := by
  intro F st p hopen
  apply wp_socket (p := p) hopen
  . intro errno st' heq hnone
    refine ⟨_, heq, attempt_singleton p _, ⟨not_setUpFailed_socket p _, ?_⟩, .inl ⟨rfl, rfl, hnone⟩⟩
    rintro ⟨fd, addr, r, hmem, -⟩
    simp [AddrInfo.socketCall] at hmem
  . intro s st₁ hprep
    apply hprep.wp_bind_if (not_setUpFailed_socket p _) (setsUp_callOrErr _ rfl _)
    . intro calls st' hprep hfail
      exact ⟨calls, hprep.calls_eq, hprep.attempt, ⟨hfail, hprep.not_connected⟩,
        .inr ⟨by simp, hprep.ne_err, hprep.open_eq⟩⟩
    . intro calls st₂ hprep hfail
      apply hprep.wp_bind_if hfail (setsUp_anetNonBlock _)
      . intro calls st' hprep hfail
        exact ⟨calls, hprep.calls_eq, hprep.attempt, ⟨hfail, hprep.not_connected⟩,
          .inr ⟨by simp, hprep.ne_err, hprep.open_eq⟩⟩
      . intro calls st₃ hprep hfail
        rw [wp_bind, wp_syscall]
        cases K.outcome st₃.calls (.connect s (p.aiAddr.read 0 p.aiAddrlen)) with
        | ok v =>
          have hv : Outcome.ret (.ok v) ≠ -1 := by
            rw [Outcome.ret]
            omega
          rw [if_neg hv]
          exact hprep.accepted hfail (.inl ⟨v, rfl⟩) rfl
        | error errno =>
          rw [if_pos (by rfl), wp_bind, wp_get]
          by_cases hin : errno = .EINPROGRESS
          . subst hin
            rw [if_pos (by rfl)]
            exact hprep.accepted hfail (.inr rfl) rfl
          . have hne : (st₃.did (.connect s (p.aiAddr.read 0 p.aiAddrlen)) (.error errno)).errno
                ≠ .EINPROGRESS := hin
            rw [if_neg hne, wp_bind, wp_discard, wp_syscall]
            exact hprep.refused hfail hin rfl

/-! # `_netUdpServer` -/

def BoundTo (p : AddrInfo) (s : Int) (calls : Calls) : Prop :=
  ∃ v, (.bind s (p.aiAddr.read 0 p.aiAddrlen), .ok v) ∈ calls

def BindFailed (p : AddrInfo) (s : Int) (calls : Calls) : Prop :=
  ∃ errno, (.bind s (p.aiAddr.read 0 p.aiAddrlen), .error errno) ∈ calls

def UdpEntry : EntrySpec
  | .continue, p, _, calls => ∀ s, ¬ OpenedFor p s calls
  | .gotoError, p, s, calls => OpenedFor p s calls ∧ (SetUpFailed calls ∨ BindFailed p s calls)
  | .break, p, s, calls => OpenedFor p s calls ∧ ¬ SetUpFailed calls ∧ BoundTo p s calls

theorem udp_bodySpec (K : Kernel) (af : Nat) : BodySpec UdpEntry (netUdpServerAf.body K af) := by
  intro F st p hopen
  apply wp_socket (p := p) hopen
  . intro errno st' heq hnone
    refine ⟨_, heq, attempt_singleton p _, ?_, .inl ⟨rfl, rfl, hnone⟩⟩
    rintro s ⟨v, -, hmem⟩
    simp at hmem
  . intro s st₁ hprep
    have herr (calls : Calls) (st' : NetState) (hprep : Prepared st p s calls st') (hfail : SetUpFailed calls)
        : ∃ calls', st'.calls = st.calls ++ calls' ∧ Attempt p calls' ∧ UdpEntry .gotoError p s calls'
            ∧ ExitState .gotoError s st'.calls :=
      ⟨calls, hprep.calls_eq, hprep.attempt, ⟨hprep.openedFor, .inl hfail⟩,
        .inr ⟨by simp, hprep.ne_err, hprep.open_eq⟩⟩
    have honly : SetsUp (netUdpServerAf.v6Only K af s) := by
      unfold netUdpServerAf.v6Only
      split
      . exact setsUp_callOrErr _ rfl _
      . exact setsUp_ok
    apply hprep.wp_bind_if (not_setUpFailed_socket p _) honly
    . exact herr
    intro calls st₂ hprep hfail
    apply hprep.wp_bind_if hfail (setsUp_callOrErr _ rfl _)
    . exact herr
    intro calls st₃ hprep hfail
    have hne : OK ≠ ERR := by decide
    have hnot (r : Outcome)
        : ¬ SetUpFailed (calls ++ [(.bind s (p.aiAddr.read 0 p.aiAddrlen), r)]) := by
      rw [setUpFailed_append_iff, setUpFailed_singleton_iff]
      simp [hfail, Syscall.isSetUp]
    obtain ⟨v, hv, hmem⟩ := hprep.openedFor
    rw [wp_bind]
    apply wp_callOrErr
    . intro st' w heq
      rw [if_neg hne]
      refine ⟨_, by rw [heq, hprep.calls_eq, List.append_assoc], hprep.attempt.concat rfl _,
        ⟨⟨v, hv, List.mem_append_left _ hmem⟩, hnot _, w, List.mem_append_right _ (List.mem_singleton_self _)⟩,
        .inr ⟨by simp, hprep.ne_err, ?_⟩⟩
      rw [heq, Calls.open?_append_none _ _ rfl]
      exact hprep.open_eq
    . intro st' errno heq
      rw [if_pos rfl]
      refine ⟨_, by rw [heq, hprep.calls_eq, List.append_assoc], hprep.attempt.concat rfl _,
        ⟨⟨v, hv, List.mem_append_left _ hmem⟩,
          .inr ⟨errno, List.mem_append_right _ (List.mem_singleton_self _)⟩⟩,
        .inr ⟨by simp, hprep.ne_err, ?_⟩⟩
      rw [heq, Calls.open?_append_none _ _ rfl]
      exact hprep.open_eq

/-! # Results -/

structure Attempts (servinfo : List AddrInfo) (tries : List (AddrInfo × Calls)) (calls : Calls) : Prop where
  entries : tries.map Prod.fst <+: servinfo
  calls_eq : calls = allCalls tries
  attempt : ∀ t ∈ tries, Attempt t.1 t.2

/-- Exactly the descriptors `fds` are open, and all others were closed as often as they were opened. -/
structure Accounted (calls : Calls) (fds : List Int) : Prop where
  open_eq : calls.open? = some fds
  count_eq : ∀ fd, calls.ops.count (.acquire fd) = calls.ops.count (.release fd) + fds.count fd

theorem accounted_of_open {calls : Calls} {fds : List Int} (h : calls.open? = some fds)
    : Accounted calls fds :=
  ⟨h, Ledger.count_of_held h⟩

theorem Walk.cases {R : EntrySpec} {servinfo : List AddrInfo} {out : BodyExit × Option AddrInfo × Int}
    {tries : List (AddrInfo × Calls)} (h : Walk R servinfo out tries)
    : out = (.continue, none, ERR) ∧ tries.map Prod.fst = servinfo
          ∧ (∀ t ∈ tries, Attempt t.1 t.2) ∧ (∀ t ∈ tries, R .continue t.1 ERR t.2)
        ∨ ∃ init p exit s last, out = (exit, some p, s) ∧ exit ≠ .continue ∧ tries = init ++ [(p, last)]
          ∧ tries.map Prod.fst <+: servinfo ∧ (∀ t ∈ tries, Attempt t.1 t.2)
          ∧ (∀ t ∈ init, R .continue t.1 ERR t.2) ∧ R exit p s last := by
  induction h with
  | nil => exact .inl ⟨rfl, rfl, by simp, by simp⟩
  | skip ha hp h ih =>
    rcases ih with ⟨hout, hmap, hatt, hall⟩ | ⟨init, q, exit, s, last, hout, hexit, rfl, hpre, hatt, hall, hlast⟩
    . refine .inl ⟨hout, by rw [List.map_cons, hmap], ?_, ?_⟩
      . exact List.forall_mem_cons.mpr ⟨ha, hatt⟩
      . exact List.forall_mem_cons.mpr ⟨hp, hall⟩
    . refine .inr ⟨_ :: init, q, exit, s, last, hout, hexit, rfl, ?_, ?_, ?_, hlast⟩
      . rw [List.map_cons]
        exact List.cons_prefix_cons.mpr ⟨rfl, hpre⟩
      . exact List.forall_mem_cons.mpr ⟨ha, hatt⟩
      . exact List.forall_mem_cons.mpr ⟨hp, hall⟩
  | exit ha hexit hp =>
    exact .inr ⟨[], _, _, _, _, rfl, hexit, rfl, by simp, by simpa using ha, by simp, hp⟩

inductive LoopEnd (R : EntrySpec) (servinfo : List AddrInfo)
    : BodyExit × Option AddrInfo × Int → Calls → Prop where
  | exhausted {calls tries} (h : Attempts servinfo tries calls) (hmap : tries.map Prod.fst = servinfo)
      (hall : ∀ t ∈ tries, R .continue t.1 ERR t.2) (hopen : calls.open? = some [])
      : LoopEnd R servinfo (.continue, none, ERR) calls
  | break {calls tries p s last} (h : Attempts servinfo (tries ++ [(p, last)]) calls)
      (hall : ∀ t ∈ tries, R .continue t.1 ERR t.2) (hlast : R .break p s last) (hs : s ≠ ERR)
      (hopen : calls.open? = some [s])
      : LoopEnd R servinfo (.break, some p, s) calls
  | gotoError {calls tries p s last} (h : Attempts servinfo (tries ++ [(p, last)]) calls)
      (hall : ∀ t ∈ tries, R .continue t.1 ERR t.2) (hlast : R .gotoError p s last) (hs : s ≠ ERR)
      (hopen : calls.open? = some [s])
      : LoopEnd R servinfo (.gotoError, some p, s) calls

theorem wp_forEntries_end {R : EntrySpec} {body : AddrInfo → Sys (BodyExit × Int)} (h : BodySpec R body)
    (servinfo : List AddrInfo) (hinit : st.calls = [])
    : wp (forEntries body servinfo ERR) (fun out st' => LoopEnd R servinfo out st'.calls) F st := by
  have hopen : st.calls.open? = some [] := by
    rw [hinit]
    rfl
  apply wp_mono (wp_forEntries h servinfo hopen) _ fun _ _ h => h
  rintro out st₁ ⟨tries, heq, hwalk, hexit⟩
  rw [hinit, List.nil_append] at heq
  rcases hwalk.cases with ⟨rfl, hmap, hatt, hall⟩ | ⟨init, p, exit, s, last, rfl, hne, rfl, hpre, hatt, hall, hlast⟩
  . rcases hexit with ⟨-, -, hnone⟩ | ⟨hne, -⟩
    . exact .exhausted ⟨hmap ▸ List.prefix_rfl, heq, hatt⟩ hmap hall hnone
    . contradiction
  . rcases hexit with ⟨heq, -⟩ | ⟨-, hs, hone⟩
    . contradiction
    . cases exit with
      | «continue» => contradiction
      | «break» => exact .break ⟨hpre, heq, hatt⟩ hall hlast hs hone
      | gotoError => exact .gotoError ⟨hpre, heq, hatt⟩ hall hlast hs hone

theorem wp_closeError_none (Q : Int → NetState → Prop) : wp (closeError K ERR) Q F st ↔ Q ERR st := by
  rw [closeError]
  rfl

theorem wp_closeError {s : Int} (hs : s ≠ ERR) {Q : Int → NetState → Prop}
    (h : ∀ st' r, st'.calls = st.calls ++ [(.close s, r)] → Q ERR st')
    : wp (closeError K s) Q F st := by
  rw [closeError, if_pos hs, wp_bind, wp_discard, wp_syscall]
  exact h _ _ rfl

theorem Attempts.closed {servinfo : List AddrInfo} {tries : List (AddrInfo × Calls)} {p : AddrInfo}
    {last calls : Calls} (h : Attempts servinfo (tries ++ [(p, last)]) calls) (s : Int) (r : Outcome)
    : Attempts servinfo (tries ++ [(p, last ++ [(.close s, r)])]) (calls ++ [(.close s, r)]) where
  entries := by
    have := h.entries
    rw [List.map_append] at this ⊢
    exact this
  calls_eq := by simp [h.calls_eq, allCalls]
  attempt := by
    have := h.attempt
    rw [List.forall_mem_append, List.forall_mem_singleton] at this ⊢
    exact ⟨this.1, this.2.concat rfl r⟩

/-- The connection that `netTcpNonBlockConnect` has begun on `s`, for the earliest entry possible. -/
structure Connects (servinfo : List AddrInfo) (s : Int) (sa : Option SockAddrEx) (calls : Calls) : Prop where
  only : Accounted calls [s]
  earliest : ∃ tries p last, Attempts servinfo (tries ++ [(p, last)]) calls
    ∧ (∀ t ∈ tries, ¬ SetUpFailed t.2 ∧ ¬ Connected t.2)
    ∧ ¬ SetUpFailed last ∧ OpenedFor p s last ∧ ConnectedTo p s last
    ∧ ∀ x ∈ sa, x.Holds p p.aiAddrlen

/-- No connection has begun: all entries were tried, or a socket could not be prepared. -/
structure ConnectsNot (servinfo : List AddrInfo) (calls : Calls) : Prop where
  none : Accounted calls []
  tried : ∃ tries, Attempts servinfo tries calls ∧ (∀ t ∈ tries, ¬ Connected t.2)
    ∧ (tries.map Prod.fst = servinfo ∨ ∃ t ∈ tries, SetUpFailed t.2)

theorem wp_netTcpNonBlockConnect (servinfo : List AddrInfo) (sa : Option SockAddrEx)
    (hinit : st.calls = [])
    : wp (netTcpNonBlockConnect K (.ok servinfo) sa) (fun out st' =>
        out.1 ≠ ERR ∧ out.2.isSome = sa.isSome ∧ Connects servinfo out.1 out.2 st'.calls
          ∨ out = (ERR, sa) ∧ ConnectsNot servinfo st'.calls) F st := by
  rw [netTcpNonBlockConnect, wp_bind]
  apply wp_mono (wp_forEntries_end (tcp_bodySpec K) servinfo hinit) _ fun _ _ h => h
  intro out st₁ hend
  generalize hcalls : st₁.calls = calls at hend
  cases hend with
  | exhausted h hmap hall hopen =>
    dsimp only
    rw [wp_bind, wp_anetSetError, wp_bind, wp_closeError_none]
    rw [← hcalls] at h hopen
    exact .inr ⟨rfl, accounted_of_open hopen, _, h, fun t ht => (hall t ht).2, .inl hmap⟩
  | @«break» _ tries p s last h hall hlast hs hopen =>
    dsimp only
    rw [← hcalls] at h hopen
    refine .inl ⟨hs, by simp, accounted_of_open hopen, tries, p, last, h, hall, hlast.1, hlast.2.1, hlast.2.2, ?_⟩
    intro x hx
    obtain ⟨y, -, rfl⟩ := Option.map_eq_some_iff.mp hx
    exact SockAddrEx.holds_copy ..
  | @gotoError _ tries p s last h hall hlast hs hopen =>
    dsimp only
    rw [wp_bind]
    apply wp_closeError hs
    intro st' r heq
    rw [← hcalls] at h hopen
    refine .inr ⟨rfl, accounted_of_open ?_, _, heq ▸ h.closed s r, ?_, .inr ⟨(p, last ++ [(.close s, r)]), ?_, ?_⟩⟩
    . rw [heq]
      exact Calls.open?_append_close hopen r
    . rw [List.forall_mem_append, List.forall_mem_singleton]
      refine ⟨fun t ht => (hall t ht).2, ?_⟩
      rintro ⟨fd, addr, r', hmem, hr'⟩
      rcases List.mem_append.mp hmem with hmem | hmem
      . exact hlast.2 ⟨fd, addr, r', hmem, hr'⟩
      . simp at hmem
    . exact List.mem_append_right _ (List.mem_singleton_self _)
    . exact (setUpFailed_append_iff _ _).mpr (.inl hlast.1)

/-- The socket `s` that `_netUdpServer` has bound, for the first entry that got one. -/
structure Binds (servinfo : List AddrInfo) (s : Int) (calls : Calls) : Prop where
  only : Accounted calls [s]
  first : ∃ tries p last, Attempts servinfo (tries ++ [(p, last)]) calls
    ∧ (∀ t ∈ tries, ∀ fd, ¬ OpenedFor t.1 fd t.2)
    ∧ OpenedFor p s last ∧ ¬ SetUpFailed last ∧ BoundTo p s last

/-- Nothing was bound: there was no socket at all, or the first one could not be prepared or bound. -/
structure BindsNot (servinfo : List AddrInfo) (calls : Calls) : Prop where
  none : Accounted calls []
  tried : ∃ tries, Attempts servinfo tries calls
    ∧ ((tries.map Prod.fst = servinfo ∧ ∀ t ∈ tries, ∀ fd, ¬ OpenedFor t.1 fd t.2)
      ∨ ∃ t ∈ tries, SetUpFailed t.2 ∨ ∃ fd, BindFailed t.1 fd t.2)

theorem wp_netUdpServerAf (servinfo : List AddrInfo) (af : Nat) (hinit : st.calls = [])
    : wp (netUdpServerAf K (.ok servinfo) af) (fun s st' =>
        s ≠ ERR ∧ Binds servinfo s st'.calls ∨ s = ERR ∧ BindsNot servinfo st'.calls) F st := by
  rw [netUdpServerAf, wp_bind]
  apply wp_mono (wp_forEntries_end (udp_bodySpec K af) servinfo hinit) _ fun _ _ h => h
  intro out st₁ hend
  generalize hcalls : st₁.calls = calls at hend
  cases hend with
  | exhausted h hmap hall hopen =>
    dsimp only
    rw [wp_bind, wp_anetSetError, wp_closeError_none]
    rw [← hcalls] at h hopen
    exact .inr ⟨rfl, accounted_of_open hopen, _, h, .inl ⟨hmap, hall⟩⟩
  | @«break» _ tries p s last h hall hlast hs hopen =>
    rw [← hcalls] at h hopen
    exact .inl ⟨hs, accounted_of_open hopen, tries, p, last, h, hall, hlast⟩
  | @gotoError _ tries p s last h hall hlast hs hopen =>
    apply wp_closeError hs
    intro st' r heq
    rw [← hcalls] at h hopen
    refine .inr ⟨rfl, accounted_of_open ?_, _, heq ▸ h.closed s r, .inr ⟨(p, last ++ [(.close s, r)]), ?_, ?_⟩⟩
    . rw [heq]
      exact Calls.open?_append_close hopen r
    . exact List.mem_append_right _ (List.mem_singleton_self _)
    . rcases hlast.2 with hfail | ⟨errno, hmem⟩
      . exact .inl ((setUpFailed_append_iff _ _).mpr (.inl hfail))
      . exact .inr ⟨s, errno, List.mem_append_left _ hmem⟩

def ResolveFailed (res : GetAddrInfo) (calls : Calls) : Prop :=
  ∃ text, res = .error text ∧ calls = []

/--
Both functions return the only descriptor that they have left open, connected or bound for the right entry, or
an error after everything they have opened was closed again, once each.
-/
theorem descriptors_accounted (K : Kernel) (res : GetAddrInfo) (errno : Errno) (err : String)
    : (∀ sa, ∃ s sa' st', netTcpNonBlockConnect K res sa ⟨errno, err, []⟩ = .ok (s, sa') st'
        ∧ ((∃ servinfo, res = .ok servinfo ∧ s ≠ ERR ∧ sa'.isSome = sa.isSome
              ∧ Connects servinfo s sa' st'.calls)
          ∨ (s = ERR ∧ sa' = sa
              ∧ (ResolveFailed res st'.calls ∨ ∃ servinfo, res = .ok servinfo ∧ ConnectsNot servinfo st'.calls))))
      ∧ ∀ af, ∃ s st', netUdpServerAf K res af ⟨errno, err, []⟩ = .ok s st'
        ∧ ((∃ servinfo, res = .ok servinfo ∧ s ≠ ERR ∧ Binds servinfo s st'.calls)
          ∨ (s = ERR
              ∧ (ResolveFailed res st'.calls ∨ ∃ servinfo, res = .ok servinfo ∧ BindsNot servinfo st'.calls))) := by
  cases res with
  | error text =>
    exact ⟨fun sa => ⟨_, _, _, rfl, .inr ⟨rfl, rfl, .inl ⟨text, rfl, rfl⟩⟩⟩,
      fun af => ⟨_, _, rfl, .inr ⟨rfl, .inl ⟨text, rfl, rfl⟩⟩⟩⟩
  | ok servinfo =>
    constructor
    . intro sa
      have hinit : (NetState.mk errno err []).calls = [] := rfl
      obtain ⟨⟨s, sa'⟩, st', heq, hpost⟩ := exists_ok_of_wp (wp_netTcpNonBlockConnect (K := K) servinfo sa hinit)
      refine ⟨s, sa', st', heq, ?_⟩
      rcases hpost with ⟨hs, hsome, h⟩ | ⟨hout, h⟩
      . exact .inl ⟨servinfo, rfl, hs, hsome, h⟩
      . obtain ⟨rfl, rfl⟩ := Prod.mk.inj hout
        exact .inr ⟨rfl, rfl, .inr ⟨servinfo, rfl, h⟩⟩
    . intro af
      have hinit : (NetState.mk errno err []).calls = [] := rfl
      obtain ⟨s, st', heq, hpost⟩ := exists_ok_of_wp (wp_netUdpServerAf (K := K) servinfo af hinit)
      refine ⟨s, st', heq, ?_⟩
      rcases hpost with ⟨hs, h⟩ | ⟨rfl, h⟩
      . exact .inl ⟨servinfo, rfl, hs, h⟩
      . exact .inr ⟨rfl, .inr ⟨servinfo, rfl, h⟩⟩

theorem tcpConnect_accounted (K : Kernel) (res : GetAddrInfo) (sa : SockAddrEx) (tcpConnNew : Bool)
    (errno : Errno) (err : String)
    : ∃ c st', tcpConnect K res sa tcpConnNew ⟨errno, err, []⟩ = .ok c st'
        ∧ Accounted st'.calls (c.map Prod.fst).toList := by
  apply exists_ok_of_wp
  rw [tcpConnect, wp_bind]
  cases res with
  | error text => exact accounted_of_open (by rfl)
  | ok servinfo =>
    apply wp_mono (wp_netTcpNonBlockConnect servinfo (some sa) rfl) _ fun _ _ h => h
    rintro ⟨s, sa'⟩ st' (⟨hs, hsome, h⟩ | ⟨hout, h⟩)
    . dsimp only at hs ⊢
      rw [if_neg hs]
      split
      . rw [wp_bind, wp_discard, wp_syscall]
        exact accounted_of_open (Calls.open?_append_close h.only.open_eq _)
      . obtain ⟨x, rfl⟩ := Option.isSome_iff_exists.mp hsome
        exact h.only
    . obtain ⟨rfl, rfl⟩ := Prod.mk.inj hout
      dsimp only
      rw [if_pos rfl]
      exact h.none

def freshFd (fds : List Int) : Nat :=
  fds.foldr (fun fd n => max (fd.toNat + 1) n) 3

theorem lt_freshFd {fds : List Int} {s : Nat} (h : (s : Int) ∈ fds) : s < freshFd fds := by
  induction fds with
  | nil => contradiction
  | cons fd fds ih =>
    rw [freshFd, List.foldr_cons, ← freshFd]
    rcases List.mem_cons.mp h with heq | hmem
    . omega
    . have := ih hmem
      omega

def Kernel.ofFailures (failure : Calls → Syscall → Option Errno) : Kernel where
  outcome calls c :=
    match failure calls c with
    | some errno => .error errno
    | none =>
      match c with
      | .socket .. => .ok (freshFd (calls.open?.getD []))
      | _ => .ok 0
  fresh := by
    intro calls fds domain type protocol s hopen hs hmem
    split at hs
    . contradiction
    . injection hs with hs
      rw [Calls.open?, hopen, Option.getD_some] at hs
      have := lt_freshFd hmem
      omega
  strerror _ := ""

-- The first address refuses the connection, and the second one takes it in the end.
example
    : (match
          (netTcpNonBlockConnect
            (.ofFailures fun calls c =>
              match c with
              | .connect .. => some (if calls.length < 5 then .other 111 else .EINPROGRESS)
              | _ => none)
            (.ok [.dns AF_INET6, .dns AF_INET]) none).run ⟨.EAGAIN, "", []⟩
        with
        | .ok out st => (out.1, st.calls.open?)
        | .error _ _ => (0, none))
      = (3, some [3]) := by
  decide

end Xsocks
