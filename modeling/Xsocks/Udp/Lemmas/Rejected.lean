import Xsocks.Lib.Rel
import Xsocks.Protocol.Lemmas.Crypto
import Xsocks.Protocol.Lemmas.Inet
import Xsocks.Udp.Lemmas.Session

/-!
This module contains the datagrams that `udpServerOnRead` of `server.c` rejects: the server goes on as if they
had not arrived.
-/

namespace Xsocks.Udp

open Wp Rel Run

variable {κ : Type}

def UdpConn.withTimer (c : UdpConn) (timer : Timer) : UdpConn :=
  { c with timer := timer }

namespace Machine

def withTimer (m : Machine) (timer : Timer) : Machine :=
  { m with server := m.server.withTimer timer }

def SameBut (m m' : Machine) : Prop :=
  ∃ timer, m' = m.withTimer timer

end Machine

def Blind {α : Type} (x : Proc α) : Prop :=
  Respects Machine.SameBut x

section

variable {α β : Type} {s : Side}

theorem blind_modify {f : Machine → Machine}
    (hf : ∀ m timer, ∃ timer', f (m.withTimer timer) = (f m).withTimer timer')
    : Blind (modify f : Proc PUnit) := by
  apply Respects.modify
  rintro m _ ⟨timer, rfl⟩
  exact hf m timer

theorem blind_logIo {io : Io} : Blind (logIo io) :=
  blind_modify fun _ timer => ⟨timer, rfl⟩

theorem blind_updClient {f : UdpClient → UdpClient} : Blind (modify fun m => m.updClient f : Proc PUnit) :=
  blind_modify fun _ timer => ⟨timer, rfl⟩

theorem blind_derefClient : Blind derefClient := by
  apply Respects.get_bind
  . intro m
    exact Respects.ite Respects.throw Respects.pure
  . rintro m _ ⟨timer, rfl⟩
    rfl

theorem blind_deref {f : UdpConn → Proc β} (hf : ∀ c, Blind (f c))
    (htimer : ∀ c timer, f (c.withTimer timer) = f c)
    : Blind (deref s >>= f) := by
  cases s with
  | server =>
    rintro m _ ⟨timer, rfl⟩
    show Alike Machine.SameBut (f m.server m) (f (m.server.withTimer timer) (m.withTimer timer))
    rw [htimer]
    exact hf m.server m (m.withTimer timer) ⟨timer, rfl⟩
  | remote =>
    unfold deref
    rw [bind_assoc]
    apply Respects.get_bind
    . intro m
      apply Respects.bind _ hf
      exact Respects.ite Respects.throw (Respects.ite Respects.throw Respects.pure)
    . rintro m _ ⟨timer, rfl⟩
      rfl

theorem blind_assign {f : UdpConn → UdpConn}
    (hf : ∀ c timer, ∃ timer', f (c.withTimer timer) = (f c).withTimer timer')
    : Blind (assign s f) := by
  apply blind_deref
  . intro _
    apply blind_modify
    intro m timer
    cases s with
    | server =>
      obtain ⟨timer', heq⟩ := hf m.server timer
      refine ⟨timer', ?_⟩
      show { m with server := f (m.server.withTimer timer) } = _
      rw [heq]
      rfl
    | remote => exact ⟨timer, rfl⟩
  . exact fun _ _ => rfl

theorem blind_timer {f : Timer → Timer} : Blind (assign s fun c => { c with timer := f c.timer }) :=
  blind_assign fun _ timer => ⟨f timer, rfl⟩

theorem blind_get {f : Machine → Proc β} (hf : ∀ m, Blind (f m))
    (htimer : ∀ m timer, f (m.withTimer timer) = f m)
    : Blind (get >>= f) := by
  apply Respects.get_bind hf
  rintro m _ ⟨timer, rfl⟩
  exact htimer m timer

end

section

variable {α : Type} {s : Side} {E : Env κ}

theorem blind_udpRemoteFree : Blind udpRemoteFree := by
  apply blind_get _ fun _ _ => rfl
  intro m
  apply Respects.ite
  . exact Respects.bind blind_logIo fun _ => blind_assign fun _ timer => ⟨timer.clear, rfl⟩
  . exact Respects.pure

theorem blind_udpConnectionFree : Blind udpConnectionFree := by
  have hfree : Blind (do udpRemoteFree; udpClientFree) := by
    apply Respects.bind blind_udpRemoteFree
    intro _
    exact Respects.bind blind_logIo fun _ => blind_updClient
  apply Respects.bind blind_derefClient
  intro c
  apply Respects.ite
  . exact Respects.bind (blind_modify fun _ timer => ⟨timer, rfl⟩) fun _ => hfree
  . exact hfree

theorem blind_fireClose : Blind (fireClose s) := by
  apply blind_deref _ fun _ _ => rfl
  intro _
  cases s with
  | server => exact Respects.pure
  | remote => exact blind_deref (fun _ => blind_udpConnectionFree) fun _ _ => rfl

theorem blind_failed : Blind (failed s : Proc (Option α)) := by
  apply Respects.bind
  . apply blind_deref _ fun _ _ => rfl
    intro _
    cases s with
    | server => exact Respects.pure
    | remote => exact blind_deref (fun _ => Respects.pure) fun _ _ => rfl
  . intro _
    exact Respects.bind blind_fireClose fun _ => Respects.pure

theorem blind_udpRead {bufLen : Nat} : Blind (udpRead s bufLen) := by
  apply Respects.bind blind_timer
  intro _
  apply blind_get _ fun _ _ => rfl
  intro m
  split
  . exact blind_failed
  . apply Respects.bind blind_logIo
    intro _
    apply Respects.bind
    . apply blind_modify
      intro m timer
      cases s <;> exact ⟨timer, rfl⟩
    . intro _
      apply Respects.ite
      . exact Respects.bind blind_fireClose fun _ => Respects.pure
      . exact Respects.bind blind_timer fun _ => Respects.pure

theorem blind_udpWrite {buf : List Byte} {sa : SockAddr} : Blind (udpWrite s buf sa) := by
  apply blind_deref _ fun _ _ => rfl
  intro _
  apply blind_get _ fun _ _ => rfl
  intro m
  apply Respects.ite
  . exact blind_failed
  . exact Respects.bind blind_logIo fun _ => Respects.pure

theorem blind_udpShadowsocksConnInit {host : CString} {port : Nat}
    : Blind (udpShadowsocksConnInit E s host port) := by
  apply blind_get _ fun _ _ => rfl
  intro m
  split
  . exact blind_assign fun _ timer => ⟨timer, rfl⟩
  . exact Respects.throw

theorem blind_connRead : Blind (connRead E s) := by
  apply blind_deref _ fun _ _ => rfl
  intro c
  split
  . exact blind_udpRead
  . apply Respects.bind blind_udpRead
    intro nread
    split
    . exact Respects.pure
    . split
      . exact blind_failed
      . split
        . exact blind_failed
        . exact Respects.bind blind_udpShadowsocksConnInit fun _ => Respects.pure

theorem blind_connWrite {buf : List Byte} {sa : SockAddr} : Blind (connWrite E s buf sa) := by
  apply blind_deref _ fun _ _ => rfl
  intro c
  split
  . exact blind_udpWrite
  . apply blind_get _ fun _ _ => rfl
    intro m
    split
    . exact blind_failed
    . exact blind_udpWrite

theorem blind_udpRemoteNew {type : ConnType} {host : CString} {port : Nat}
    : Blind (udpRemoteNew E type host port) := by
  apply Respects.bind blind_derefClient
  intro c
  apply blind_get _ fun _ _ => rfl
  intro m
  apply Respects.ite
  . exact Respects.pure
  . apply Respects.bind blind_updClient
    intro _
    split
    . exact Respects.bind blind_udpRemoteFree fun _ => Respects.pure
    . apply Respects.bind blind_updClient
      intro _
      exact Respects.bind (blind_modify fun _ timer => ⟨timer, rfl⟩) fun _ => Respects.pure

theorem blind_parseDest : Blind (parseDest E) := by
  apply blind_deref _ fun _ _ => rfl
  intro c
  split
  . exact Respects.throw
  . split
    . exact Respects.pure
    . exact Respects.throw

theorem blind_forward {buf : List Byte}
    : Blind (do
        let c ← derefClient
        let _ ← connWrite E .remote buf c.saRemote) :=
  Respects.bind blind_derefClient fun _ => Respects.bind blind_connWrite fun _ => Respects.pure

theorem blind_udpServerOnRead : Blind (udpServerOnRead E) := by
  unfold udpServerOnRead
  split
  . apply Respects.bind blind_connRead
    intro nread
    split
    . exact blind_udpConnectionFree
    . apply Respects.bind blind_parseDest
      intro addr
      apply Respects.bind blind_udpRemoteNew
      intro ok
      exact Respects.ite blind_udpConnectionFree blind_forward
  . apply Respects.bind blind_connRead
    intro nread
    split
    . exact blind_udpConnectionFree
    . apply Respects.bind blind_udpRemoteNew
      intro ok
      apply Respects.ite blind_udpConnectionFree
      exact Respects.bind blind_udpShadowsocksConnInit fun _ => blind_forward

theorem blind_udpConnReadHandler : Blind (udpConnReadHandler E) := by
  apply blind_deref _ fun _ _ => rfl
  intro _
  apply Respects.bind blind_connRead
  intro nread
  split
  . exact Respects.pure
  . apply Respects.bind blind_derefClient
    intro c
    exact Respects.bind blind_connWrite fun _ => blind_udpConnectionFree

theorem blind_udpConnTimeoutHandler : Blind udpConnTimeoutHandler := by
  apply Respects.bind
  . apply blind_deref _ fun _ _ => rfl
    intro _
    exact blind_deref (fun _ => Respects.pure) fun _ _ => rfl
  . exact fun _ => blind_fireClose

end

/-- The ways in which `udpShadowsocksConnRead` rejects what `recvfrom` has returned. -/
inductive Rejected (E : Env κ) : RecvRes → Prop where
  | error : Rejected E .error
  | empty (sa : SockAddr) : Rejected E (.datagram sa [])
  | undecrypted {sa : SockAddr} {data : List Byte} (hplain : E.crypto.decryptAll (data.take NET_IOBUF_LEN) = none)
      : Rejected E (.datagram sa data)
  | unparsed {sa : SockAddr} {data buf : List Byte}
      (hplain : E.crypto.decryptAll (data.take NET_IOBUF_LEN) = some buf)
      (haddr : socks5AddrParse E.inet (.ofList 0 buf) buf.length HOSTNAME_MAX_LEN = none)
      : Rejected E (.datagram sa data)

/-- The client is gone without a remote, and nothing has been sent for it. -/
structure Session.Dismissed (p : Session) : Prop extends p.Over where
  client : p.client.live = false
  remote : p.client.remote = false
  sent : ∀ s sa data, .send s sa data ∉ p.trace

def skip (k j : Nat) : Option Nat :=
  if j = k then none else some (if j < k then j else j - 1)

def Event.without (k : Nat) : Event → Option Event
  | .request => some .request
  | .reply j => (skip k j).map .reply
  | .timeout j => (skip k j).map .timeout

def without (k : Nat) (as : List (Event × Inputs)) : List (Event × Inputs) :=
  as.filterMap fun a => (a.1.without k).map fun e => (e, a.2)

namespace UdpServer

/-- `srv` is `srv'` without the client `k`, up to the timer of the socket. -/
structure Without (k : Nat) (p : Session) (srv srv' : UdpServer) : Prop where
  conn : ∃ timer, srv'.conn = srv.conn.withTimer timer
  remoteCount : srv'.remoteCount = srv.remoteCount
  session : srv'.sessions[k]? = some p
  sessions : srv.sessions = srv'.sessions.eraseIdx k
  faults : srv'.faults = srv.faults
  crashed : srv'.crashed = srv.crashed

variable {k i j : Nat} {p : Session} {srv srv' : UdpServer} {E : Env κ}

theorem Without.getElem? (h : Without k p srv srv') (hij : skip k j = some i)
    : srv'.sessions[j]? = srv.sessions[i]? := by
  rw [h.sessions, List.getElem?_eraseIdx]
  unfold skip at hij
  split at hij
  . contradiction
  . rw [Option.some.injEq] at hij
    split at hij
    . rw [if_pos (by omega), hij]
    . rw [if_neg (by omega)]
      congr 1
      omega

theorem Without.store (h : Without k p srv srv') (hij : skip k j = some i) {m m' : Machine} (hm : m.SameBut m')
    : Without k p (srv.store i m) (srv'.store j m') := by
  obtain ⟨timer, rfl⟩ := hm
  unfold skip at hij
  split at hij
  . contradiction
  . next hne =>
    rw [Option.some.injEq] at hij
    constructor
    case conn => exact ⟨timer, rfl⟩
    case remoteCount => rfl
    case session =>
      show (srv'.sessions.set j _)[k]? = some p
      rw [List.getElem?_set_ne hne]
      exact h.session
    case sessions =>
      show srv.sessions.set i _ = (srv'.sessions.set j _).eraseIdx k
      rw [h.sessions]
      split at hij
      . next hlt =>
        rw [List.eraseIdx_set_gt hlt, hij]
        rfl
      . rw [List.eraseIdx_set_lt (by omega), hij]
        rfl
    case faults => exact h.faults
    case crashed => exact h.crashed

theorem Without.fault (h : Without k p srv srv') (f : Fault) : Without k p (srv.fault f) (srv'.fault f) := by
  refine ⟨h.conn, h.remoteCount, h.session, h.sessions, ?_, ?_⟩
  . rw [UdpServer.fault, UdpServer.fault, h.faults]
  . rw [UdpServer.fault, UdpServer.fault, h.crashed]

theorem Without.exec (h : Without k p srv srv') (hij : skip k j = some i) {x : Proc Unit} (hx : Blind x)
    (inp : Inputs)
    : Without k p (srv.exec i x inp) (srv'.exec j x inp) := by
  unfold UdpServer.exec
  rw [h.getElem? hij]
  cases hq : srv.sessions[i]? with
  | none => exact h
  | some q =>
    have hsame : (srv.machine q inp).SameBut (srv'.machine q inp) := by
      obtain ⟨timer, hconn⟩ := h.conn
      refine ⟨timer, ?_⟩
      rw [machine, hconn, h.remoteCount]
      rfl
    dsimp only
    rcases (hx _ _ hsame).ok_or_error with ⟨_, m, m', hm, hm', hmm'⟩ | ⟨f, m, m', hm, hm', hmm'⟩
    . rw [hm, hm']
      exact h.store hij hmm'
    . rw [hm, hm']
      exact (h.store hij hmm').fault f

theorem Without.lt (h : Without k p srv srv') : k < srv'.sessions.length :=
  (List.getElem?_eq_some_iff.mp h.session).1

theorem Without.accept (h : Without k p srv srv') (q : Session)
    : Without k p { srv with sessions := srv.sessions ++ [q] } { srv' with sessions := srv'.sessions ++ [q] } := by
  refine ⟨h.conn, h.remoteCount, ?_, ?_, h.faults, h.crashed⟩
  . rw [List.getElem?_append_left h.lt]
    exact h.session
  . rw [List.eraseIdx_append_of_lt_length h.lt, h.sessions]

theorem Without.skip_length (h : Without k p srv srv') : skip k srv'.sessions.length = some srv.sessions.length := by
  have hlt := h.lt
  rw [skip, if_neg (by omega), if_neg (by omega), h.sessions, List.length_eraseIdx_of_lt hlt]

def execIf (srv : UdpServer) (registered : Session → Bool) (i : Nat) (x : Proc Unit) (inp : Inputs) : UdpServer :=
  match srv.sessions[i]? with
  | none => srv
  | some p => if registered p then srv.exec i x inp else srv

theorem Without.execIf (h : Without k p srv srv') {registered : Session → Bool} (hij : skip k j = some i)
    {x : Proc Unit} (hx : Blind x) (inp : Inputs)
    : Without k p (srv.execIf registered i x inp) (srv'.execIf registered j x inp) := by
  unfold UdpServer.execIf
  rw [h.getElem? hij]
  split
  . exact h
  . split
    . exact h.exec hij hx inp
    . exact h

theorem Without.execIf_none (h : Without k p srv srv') {registered : Session → Bool} (hp : registered p = false)
    (hj : skip k j = none) {x : Proc Unit} {inp : Inputs}
    : srv'.execIf registered j x inp = srv' := by
  unfold skip at hj
  split at hj
  . next hjk =>
    unfold UdpServer.execIf
    rw [hjk, h.session]
    dsimp only
    rw [hp]
    rfl
  . contradiction

section

variable {inp : Inputs} (hcrashed : ¬srv.crashed = true)

include hcrashed

theorem step_request
    : srv.step E (.request, inp)
        = { srv with sessions := srv.sessions ++ [Session.new] }.exec srv.sessions.length (udpServerOnRead E) inp :=
  if_neg hcrashed

theorem step_reply
    : srv.step E (.reply i, inp) = srv.execIf (fun p => p.client.conn.live) i (udpConnReadHandler E) inp :=
  if_neg hcrashed

theorem step_timeout
    : srv.step E (.timeout i, inp)
        = srv.execIf (fun p => p.client.conn.timer.registered) i udpConnTimeoutHandler inp :=
  if_neg hcrashed

end

theorem Without.step (h : Without k p srv srv') {a : Event × Inputs} {ev : Event} (ha : a.1.without k = some ev)
    : Without k p (srv.step E (ev, a.2)) (srv'.step E a) := by
  rcases a with ⟨ev', inp⟩
  by_cases hcrashed : srv.crashed = true
  . have hstep : srv.step E (ev, inp) = srv := if_pos hcrashed
    have hstep' : srv'.step E (ev', inp) = srv' := if_pos (h.crashed.trans hcrashed)
    rw [hstep, hstep']
    exact h
  . have hcrashed' : ¬srv'.crashed = true := by
      rw [h.crashed]
      exact hcrashed
    cases ev' with
    | request =>
      simp only [Event.without, Option.some.injEq] at ha
      rw [← ha, step_request hcrashed, step_request hcrashed']
      exact (h.accept .new).exec h.skip_length blind_udpServerOnRead inp
    | reply j =>
      obtain ⟨i, hij, hi⟩ := Option.map_eq_some_iff.mp ha
      rw [← hi, step_reply hcrashed, step_reply hcrashed']
      exact h.execIf hij blind_udpConnReadHandler inp
    | timeout j =>
      obtain ⟨i, hij, hi⟩ := Option.map_eq_some_iff.mp ha
      rw [← hi, step_timeout hcrashed, step_timeout hcrashed']
      exact h.execIf hij blind_udpConnTimeoutHandler inp

theorem Without.step_none (h : Without k p srv srv') (hover : p.Over) {a : Event × Inputs}
    (ha : a.1.without k = none)
    : srv'.step E a = srv' := by
  rcases a with ⟨ev, inp⟩
  by_cases hcrashed : srv'.crashed = true
  . exact if_pos hcrashed
  . cases ev with
    | request => contradiction
    | reply j =>
      rw [step_reply hcrashed]
      exact h.execIf_none hover.conn (Option.map_eq_none_iff.mp ha)
    | timeout j =>
      rw [step_timeout hcrashed]
      exact h.execIf_none hover.timer (Option.map_eq_none_iff.mp ha)

theorem Without.run (h : Without k p srv srv') (hover : p.Over) (as : List (Event × Inputs))
    : ∃ t t', run (next E) srv (without k as) = .ok t ∧ run (next E) srv' as = .ok t' ∧ Without k p t t' := by
  induction as generalizing srv srv' with
  | nil => exact ⟨srv, srv', rfl, rfl, h⟩
  | cons a as ih =>
    cases ha : a.1.without k with
    | none =>
      have hwithout : without k (a :: as) = without k as := by simp [without, ha]
      have hrun : Run.run (next E) srv' (a :: as) = Run.run (next E) (srv'.step E a) as := rfl
      rw [hwithout, hrun, h.step_none hover ha]
      exact ih h
    | some ev =>
      have hwithout : without k (a :: as) = (ev, a.2) :: without k as := by simp [without, ha]
      have hrun : ∀ srv a as, Run.run (next E) srv (a :: as) = Run.run (next E) (srv.step E a) as :=
        fun _ _ _ => rfl
      rw [hwithout, hrun, hrun]
      exact ih (h.step ha)

end UdpServer

section

variable {E : Env κ} {m : Machine}

theorem Rejected.unread (hproto : ∃ addrbufDest, m.server.proto = .shadowsocks addrbufDest)
    (h : Rejected E m.inp.recv) {nread : Option (List Byte)} {m₁ : Machine} (hread : m.Reads E .server nread m₁)
    : nread = none := by
  cases hread with
  | plain hrecv hdata hplain =>
    obtain ⟨addrbufDest, hproto⟩ := hproto
    rw [Machine.conn, hproto] at hplain
    obtain ⟨P, addr, hP, haddr, -, -⟩ := Proto.unwrap_shadowsocks hplain
    rw [hrecv] at h
    cases h with
    | empty => contradiction
    | undecrypted hnone =>
      rw [hnone] at hP
      contradiction
    | unparsed hsome hnone =>
      rw [hsome, Option.some.injEq] at hP
      subst hP
      rw [parseAddr, hnone] at haddr
      contradiction
  | _ => rfl

theorem wp_udpServerOnRead_rejected (happ : E.app = .xsServer)
    (hproto : ∃ addrbufDest, m.server.proto = .shadowsocks addrbufDest) (hnew : m.client = .new)
    (h : Rejected E m.inp.recv)
    : wp (udpServerOnRead E) (fun _ m' => ∃ m₁, m.Reads E .server none m₁ ∧ m' = m₁.dropped)
        (fun _ _ => False) m := by
  rw [udpServerOnRead, happ]
  dsimp only
  rw [Server.udpServerOnRead, wp_bind]
  apply wp_mono (Machine.wp_connRead_reads (by simp))
  . intro nread m₁ hread
    obtain rfl := h.unread hproto hread
    dsimp only
    rw [wp_udpConnectionFree_alone (hread.kept.alone hnew)]
    exact ⟨m₁, hread, rfl⟩
  . exact fun _ _ hf => hf

theorem Machine.Reads.withTimer {m₁ : Machine} (h : m.Reads E .server none m₁)
    : ∃ timer, m₁.server = m.server.withTimer timer := by
  cases h <;> exact ⟨_, rfl⟩

theorem Machine.Reads.dismissed {m₁ : Machine} (h : m.Reads E .server none m₁) (hnew : m.client = .new)
    (htrace : m.trace = [])
    : m₁.dropped.session.Dismissed := by
  have hkept := h.kept
  refine ⟨Machine.over_dropped (by rw [hkept.conn, hnew]), rfl, ?_, ?_⟩
  . show m₁.client.remote = false
    rw [hkept.remote, hnew]
    rfl
  . intro s sa data
    show .send s sa data ∉ m₁.trace ++ [.clientFree]
    rcases h.trace_server with heq | ⟨sa', data', heq⟩ <;> simp [heq, htrace]

theorem UdpServer.step_rejected {srv : UdpServer} {inp : Inputs} (happ : E.app = .xsServer)
    (hcrashed : srv.crashed = false) (hproto : ∃ addrbufDest, srv.conn.proto = .shadowsocks addrbufDest)
    (h : Rejected E inp.recv)
    : ∃ p : Session, p.Dismissed ∧ srv.Without srv.sessions.length p (srv.step E (.request, inp)) := by
  let srv₁ := { srv with sessions := srv.sessions ++ [Session.new] }
  have hp : srv₁.sessions[srv.sessions.length]? = some Session.new := by simp [srv₁]
  have hserved : wp (udpServerOnRead E) _ _ (srv₁.machine .new inp) :=
    wp_udpServerOnRead_rejected happ hproto rfl h
  rw [step_request (by simp [hcrashed])]
  rcases exec_eq hp hserved with ⟨_, ⟨m₁, hread, rfl⟩, heq⟩ | ⟨_, _, hfalse, -⟩
  . refine ⟨m₁.dropped.session, hread.dismissed rfl rfl, ?_⟩
    rw [heq, store_length]
    refine ⟨hread.withTimer, hread.kept.remoteCount, ?_, ?_, rfl, rfl⟩
    . simp [UdpServer.add]
    . simp [UdpServer.add, List.eraseIdx_append_of_length_le]
  . exact hfalse.elim

end

/--
A datagram that is rejected leaves the server as it was, up to the timer of its socket and a client that is
gone. All later events are handled as if it had not arrived.
-/
theorem rejected_datagram_unnoticed (E : Env κ) (happ : E.app = .xsServer) (srv : UdpServer)
    (hcrashed : srv.crashed = false) (hproto : ∃ addrbufDest, srv.conn.proto = .shadowsocks addrbufDest)
    (inp : Inputs) (h : Rejected E inp.recv)
    : ∃ p : Session, p.Dismissed
        ∧ srv.Without srv.sessions.length p (srv.step E (.request, inp))
        ∧ ∀ as : List (Event × Inputs), ∃ t t',
            run (UdpServer.next E) srv (without srv.sessions.length as) = .ok t
              ∧ run (UdpServer.next E) (srv.step E (.request, inp)) as = .ok t'
              ∧ t.Without srv.sessions.length p t' := by
  obtain ⟨p, hp, hwithout⟩ := UdpServer.step_rejected happ hcrashed hproto h
  exact ⟨p, hp, hwithout, hwithout.run hp.toOver⟩

theorem rejected_datagram_unnoticed_between
    : let E := Env.default .xsServer .copy .text
      let srv := (UdpServer.new E).step E (requestFor 1 5000)
      let inp : Inputs := { recv := .datagram (.inet .inet [10, 0, 0, 2] 4000) [9, 9], uninit := .zero }
      ∃ p : Session, p.Dismissed ∧ srv.Without 1 p (srv.step E (.request, inp))
        ∧ ∃ t t', run (UdpServer.next E) srv [requestFor 2 5001, replyTo 1, replyTo 0] = .ok t
          ∧ run (UdpServer.next E) (srv.step E (.request, inp)) [requestFor 2 5001, replyTo 2, replyTo 0] = .ok t'
          ∧ t.Without 1 p t' := by
  intro E srv inp
  have hrejected : Rejected E inp.recv := .unparsed rfl (by decide)
  have hproto : srv.conn.proto = .shadowsocks [1, 127, 0, 0, 1, 0, 80] := by decide +kernel
  have hlength : srv.sessions.length = 1 := by decide +kernel
  obtain ⟨p, hp, hwithout, hrun⟩ :=
    rejected_datagram_unnoticed E rfl srv (by decide +kernel) ⟨_, hproto⟩ inp hrejected
  rw [hlength] at hwithout hrun
  exact ⟨p, hp, hwithout, hrun [requestFor 2 5001, replyTo 2, replyTo 0]⟩

end Xsocks.Udp
