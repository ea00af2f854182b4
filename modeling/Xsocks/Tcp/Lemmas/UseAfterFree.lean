import Xsocks.Tcp.Lemmas.Handshake
import Xsocks.Tcp.Lemmas.Lifetime

/-!
This module contains runs of a server with all its clients, and when a connection is used in one of
them after it has been freed.
-/

namespace Xsocks

open Wp Run

variable {κ : Type}

section

variable {E : Env κ} {s : Side}

theorem Reports.settles {x : Proc κ Int} (hx : Reports E x)
    : Settles E (do let _ ← x; pure ()) := by
  apply Reports.bind hx
  . intro r hr
    exact Triple.pure fun _ h => .inl h
  . exact Triple.pure fun _ h => .inr h

theorem Keeps.settles {α : Type} {x : Proc κ α} (hx : Keeps E x) : Settles E x :=
  Triple.mono hx (fun _ h => h) fun _ _ h => .inl h

theorem settles_tcpConnectionFree : Settles E (tcpConnectionFree (κ := κ)) :=
  Triple.mono triple_tcpConnectionFree (fun _ h => h) fun _ _ h => .inr h

theorem settles_pure : Settles E (pure () : Proc κ Unit) :=
  Triple.pure fun _ h => .inl h

theorem Machine.Intact.addRemote {m : Machine κ} (h : m.Intact E) {type : ConnType} {inp : Inputs κ}
    {timeout : Int} (htype : E.app = .xsServer → type = .RAW)
    : (m.addRemote (.new (.new type inp) false timeout)).Intact E := by
  constructor
  case alive => exact ⟨⟨h.alive.client.live, by simp⟩, fun _ => ⟨rfl, fun _ => rfl⟩⟩
  case absent =>
    intro hremote
    simp [Machine.addRemote] at hremote
  case lost =>
    intro s
    cases s with
    | client => exact h.lost .client
    | remote =>
      simp only [Machine.addRemote, TcpConn.new, Timer.init, Function.update_self]
      split <;> rfl
  case raw =>
    intro happ
    simp [Machine.addRemote, TcpConn.new, htype happ, Proto.new]
  case closes => exact h.closes

theorem keeps_tcpRemoteNew {type : ConnType} {host : CString} {port : Nat}
    (htype : E.app = .xsServer → type = .RAW)
    : Keeps E (tcpRemoteNew E type host port) := by
  apply Triple.bind (keeps_logIo (by simp))
  intro _
  apply Triple.bind keeps_deref
  intro _
  apply Triple.bind Triple.get
  intro m
  split
  . exact keeps_pure
  . apply Triple.bind (Q := fun _ => Machine.Intact E) (Triple.modify fun _ h => h.addRemote htype)
    intro _
    refine triple_assign ⟨fun _ => rfl, fun _ => rfl, fun _ h => h⟩ ?_
    exact Triple.bind keeps_delEventRead fun _ => keeps_pure

theorem keeps_aclMatchHost {host : CString} : Keeps E (aclMatchHost E host) := by
  unfold aclMatchHost
  split
  . exact keeps_pure
  . exact keeps_throw (by simp)

theorem keeps_isBypass {ip : CString} : Keeps E (isBypass E ip) := by
  apply Triple.bind keeps_aclMatchHost
  intro ipMatch
  split
  . exact keeps_pure
  . exact keeps_pure

theorem keeps_parseDest {addrbufDest : List Byte} : Keeps E (parseDest E addrbufDest) := by
  unfold parseDest
  split
  . exact keeps_pure
  . exact keeps_throw (by simp)

theorem keeps_bypass {atyp : Socks5Atyp} {host : CString} : Keeps E (Local.bypass E atyp host) :=
  fun _ h => Local.wp_bypass atyp host fun _ => h

theorem settles_local_newRemote (happ : E.app ≠ .xsServer) {addrbufDest : Sds}
    : Settles E (Local.newRemote E addrbufDest) := by
  unfold Local.newRemote
  split
  . exact keeps_throw (by simp)
  . apply Triple.bind keeps_parseDest
    intro addr
    apply Triple.bind keeps_bypass
    intro bypass
    split
    . apply Triple.bind (keeps_tcpRemoteNew fun h => absurd h happ)
      intro ok
      split
      . exact settles_tcpConnectionFree
      . exact settles_pure
    . apply Triple.bind (keeps_tcpRemoteNew fun h => absurd h happ)
      intro ok
      split
      . exact keeps_tcpShadowsocksConnInit.settles
      . exact settles_tcpConnectionFree

theorem settles_local_tcpClientOnRead (happ : E.app ≠ .xsServer)
    : Settles E (Local.tcpClientOnRead E) := by
  apply Triple.bind keeps_deref
  intro c
  apply Triple.bind keeps_derefSocks5
  intro connClient
  split
  . apply Reports.bind reports_connRead
    . intro nread hnread
      split
      . exact Triple.bind keeps_deref fun _ => reports_connWrite.settles
      . exact settles_pure
    . rw [if_neg (by decide)]
      exact Triple.pure fun _ h => .inr h
  . apply Triple.bind Triple.get
    intro m
    split
    . exact settles_local_newRemote happ
    . exact reports_tcpPipe.settles

theorem settles_redir_onAccept (happ : E.app ≠ .xsServer) : Settles E (Redir.onAccept E) := by
  apply Triple.bind Triple.get
  intro m
  split
  . exact settles_tcpConnectionFree
  . apply Triple.bind keeps_isBypass
    intro bypass
    split
    . apply Triple.bind (keeps_tcpRemoteNew fun h => absurd h happ)
      intro ok
      split
      . exact settles_tcpConnectionFree
      . exact settles_pure
    . apply Triple.bind (keeps_tcpRemoteNew fun h => absurd h happ)
      intro ok
      split
      . exact keeps_tcpShadowsocksConnInit.settles
      . exact settles_tcpConnectionFree

theorem settles_redir_tcpClientOnRead : Settles E (Redir.tcpClientOnRead E) := by
  apply Triple.bind keeps_deref
  intro _
  exact Triple.bind keeps_deref fun _ => reports_tcpPipe.settles

theorem settles_server_newRemote {nread : Int} : Settles E (Server.newRemote E nread) := by
  apply Triple.bind keeps_derefShadowsocks
  intro connClient
  apply Triple.bind keeps_parseDest
  intro addr
  dsimp only
  split
  . exact settles_tcpConnectionFree
  . apply Triple.bind (keeps_tcpRemoteNew fun _ => rfl)
    intro ok
    split
    . exact settles_tcpConnectionFree
    . apply Keeps.settles
      apply keeps_assign
      split
      . exact ⟨fun _ => rfl, fun _ => rfl, fun _ h => h⟩
      . exact ⟨fun _ => rfl, fun _ => rfl, fun _ h => h⟩

theorem settles_server_tcpClientOnRead : Settles E (Server.tcpClientOnRead E) := by
  apply Triple.bind keeps_deref
  intro c
  apply Triple.bind Triple.get
  intro m
  split
  . apply Reports.bind reports_connRead
    . intro nread hnread
      split
      . exact settles_server_newRemote
      . exact settles_pure
    . rw [if_neg (by decide)]
      exact Triple.pure fun _ h => .inr h
  . exact reports_tcpPipe.settles

theorem settles_fireRead : Settles E (fireRead E s) := by
  apply Triple.bind keeps_deref
  intro _
  cases s with
  | client =>
    show Settles E (tcpClientOnRead E)
    unfold tcpClientOnRead
    split
    . next happ => exact settles_local_tcpClientOnRead (by simp [happ])
    . exact settles_server_tcpClientOnRead
    . exact settles_redir_tcpClientOnRead
  | remote =>
    apply Triple.bind keeps_deref
    intro _
    exact Triple.bind keeps_deref fun _ => reports_tcpPipe.settles

theorem keeps_preparePipe : Keeps E (preparePipe (κ := κ)) :=
  Triple.bind keeps_addEventRead fun _ => keeps_addEventRead

theorem settles_tcpConnTimeoutHandler : Settles E (tcpConnTimeoutHandler (κ := κ) s) := by
  apply Triple.bind keeps_setErr
  intro _
  apply Triple.bind (Q := fun _ => Machine.Intact E)
  . apply Triple.bind keeps_deref
    intro _
    cases s with
    | client => exact Triple.bind keeps_deref fun _ => keeps_pure
    | remote =>
      apply Triple.bind keeps_deref
      intro _
      exact Triple.bind keeps_deref fun _ => keeps_pure
  . intro _
    exact Triple.mono triple_fireClose (fun _ h => h) fun _ _ h => .inr h

theorem keeps_fireConnect_err : Keeps E (fireConnect E s ERR) := by
  apply Triple.bind keeps_deref
  intro _
  cases s with
  | client => exact keeps_pure
  | remote =>
    apply Triple.bind (keeps_logIo (by simp))
    intro _
    apply Triple.bind keeps_deref
    intro _
    apply Triple.bind keeps_deref
    intro _
    rw [if_pos rfl]
    exact keeps_pure

end

namespace Machine

def LeftAccepted (m : Machine κ) : Prop :=
  (m.conn .client).rbufOff ≠ 0
    → m.netWrite (m.conn .client).rbufOff = (m.conn .client).rbufOff

/-- If xs-server finds the remote connected, then all bytes that are left are accepted. -/
def TakesLeft (E : Env κ) (m : Machine κ) : Prop :=
  E.app = .xsServer → (m.conn .remote).connected = false
    → tcpCheckConnectDone m.inp.connect = some true → m.LeftAccepted

instance (m : Machine κ) : Decidable m.LeftAccepted :=
  inferInstanceAs (Decidable (_ → _))

instance (E : Env κ) (m : Machine κ) : Decidable (m.TakesLeft E) :=
  inferInstanceAs (Decidable (_ → _))

end Machine

section

variable {E : Env κ} {m : Machine κ} {s : Side}

theorem wp_writeLeft_accepted (h : m.Intact E) (happ : E.app = .xsServer) (hs : m.Usable .remote)
    (hleft : m.LeftAccepted)
    : wp (Server.writeLeft E) (fun _ m' => m'.Intact E) Crashed m := by
  rw [Server.writeLeft, wp_bind, wp_deref h.alive.client]
  split
  . exact h
  . next hoff =>
    have hlog : (m.log (.write .remote (m.conn .client).rbufOff)).Intact E := h.log (by simp)
    rw [wp_bind, connWrite, wp_bind, wp_deref hs, wp_bind, wp_logIo, h.raw happ]
    dsimp only
    rw [wp_tcpWrite hlog.alive (by simpa using hs)]
    have hnet : (m.log (.write .remote (m.conn .client).rbufOff)).netWrite (m.conn .client).rbufOff
        = (m.conn .client).rbufOff := hleft hoff
    rw [hnet]
    dsimp only
    rw [if_neg (by rw [ERR]; omega), if_neg (by rw [ERR]; omega), if_neg (by omega)]
    refine (?_ : Triple (Machine.Intact E) _ _ Crashed) _ (hlog.sent _ _)
    exact triple_assign ⟨fun _ => rfl, fun _ => rfl, fun _ h => h⟩ keeps_pure

theorem wp_fireConnect_ok (h : m.Intact E)
    (hleft : s = .remote → E.app = .xsServer → m.LeftAccepted)
    : wp (fireConnect E s OK) (fun _ m' => m'.Intact E) Crashed m := by
  unfold fireConnect
  rw [wp_bind]
  apply h.wp_deref
  intro hs
  cases s with
  | client => exact h
  | remote =>
    have hlog : (m.log (.onConnect .remote OK)).Intact E := h.log (by simp)
    dsimp only
    rw [wp_bind, wp_logIo, tcpRemoteOnConnect, wp_bind, wp_deref (by simpa using hs), wp_bind,
      wp_deref hlog.alive.client, if_neg (by decide)]
    split
    . next happ =>
      rw [wp_bind]
      apply wp_mono (wp_writeLeft_accepted hlog happ (by simpa using hs) (hleft rfl happ))
      . intro ok m' h'
        split
        . exact keeps_preparePipe m' h'
        . exact h'
      . intro _ _ hF
        exact hF
    . exact keeps_preparePipe _ hlog

theorem wp_handleTcpConnection (h : m.Intact E) (hleft : s = .remote → m.TakesLeft E)
    : wp (handleTcpConnection E s)
        (fun status m' => (status = OK ∧ m'.Intact E) ∨ (status = ERR ∧ Settled E m')) Crashed m := by
  rw [handleTcpConnection, wp_bind]
  apply h.wp_deref
  intro hs
  split
  . exact .inl ⟨rfl, h⟩
  . next hconn =>
    rw [wp_bind, wp_get]
    split
    . exact .inr ⟨rfl, .inl h⟩
    . next hdone =>
      have hupd : (m.upd s fun c => { c with connected := true, we := false }).Intact E :=
        h.upd hs ⟨fun _ => rfl, fun _ => rfl, fun _ h => h⟩
      rw [wp_bind, wp_assign hs, wp_bind]
      apply wp_mono (wp_fireConnect_ok hupd _)
      . intro _ m' h'
        exact .inl ⟨rfl, h'⟩
      . intro _ _ hF
        exact hF
      . intro hremote happ
        subst hremote
        have hleft := hleft rfl happ (by simpa using hconn) hdone
        simpa [Machine.LeftAccepted, Machine.netWrite] using hleft
    . refine (?_ : Triple (Machine.Intact E) _ _ Crashed) _ h
      apply Triple.bind keeps_setErr
      intro _
      apply Triple.bind keeps_fireConnect_err
      intro _
      apply Triple.bind triple_fireClose
      intro _
      exact Triple.pure fun _ h => .inr ⟨rfl, .inr h⟩

theorem wp_handler_settled (h : m.Intact E) {r : Ready}
    (hleft : s = .remote → r ≠ .timeout → m.TakesLeft E)
    : wp (handler E s r) (fun _ => Settled E) Crashed m := by
  -- After an error code the handlers return at once.
  have hcases : ∀ x : Proc κ Unit, Settles E x → r ≠ .timeout
      → wp (do let status ← handleTcpConnection E s; if status ≠ OK then pure () else x)
          (fun _ => Settled E) Crashed m := by
    intro x hx hr
    rw [wp_bind]
    apply wp_mono (wp_handleTcpConnection h fun hs => hleft hs hr)
    . intro status m' h'
      rcases h' with ⟨rfl, h'⟩ | ⟨rfl, h'⟩
      . rw [if_neg (by simp)]
        exact hx m' h'
      . rw [if_pos (by decide)]
        exact h'
    . intro _ _ hF
      exact hF
  cases r with
  | read => exact hcases _ settles_fireRead (by simp)
  | write =>
    apply hcases _ _ (by simp)
    apply Triple.bind keeps_deref
    intro c
    split
    . exact reports_tcpPipeWrite.settles
    . apply Keeps.settles
      exact Triple.bind keeps_deref fun _ => keeps_pure
  | timeout => exact settles_tcpConnTimeoutHandler m h

end

namespace TcpServer

variable {E : Env κ} {srv : TcpServer κ}

theorem settled_machine {p : Pair κ} {inp : Inputs κ} (h : Settled E (srv.machine p inp))
    (srv' : TcpServer κ) (inp' : Inputs κ)
    : Settled E (srv'.machine p inp') := by
  rcases h with h | h
  . left
    exact h.congr rfl rfl fun _ => rfl
  . right
    exact ⟨h.dead, h.lost, h.closes⟩

theorem settled_absent (inp : Inputs κ) : Settled E (srv.machine .absent inp) := by
  right
  exact ⟨fun _ => ⟨rfl, rfl, rfl, rfl⟩, fun _ => rfl, fun _ => Nat.zero_le _⟩

theorem intact_addClient (inp : Inputs κ) (type : ConnType)
    : ((srv.machine .absent inp).addClient (.new (.new type inp) true E.timeout)).Intact E := by
  constructor
  case alive => exact ⟨⟨rfl, by simp⟩, fun h => by cases h⟩
  case absent => exact fun _ => ⟨rfl, rfl, rfl, rfl⟩
  case lost =>
    intro s
    cases s with
    | client =>
      simp only [Machine.addClient, TcpConn.new, Timer.init, Function.update_self]
      split <;> rfl
    | remote => rfl
  case raw => exact fun _ => rfl
  case closes => exact fun _ => rfl

theorem wp_tcpServerOnAccept (inp : Inputs κ)
    : wp (tcpServerOnAccept E) (fun _ => Settled E) Crashed (srv.machine .absent inp) := by
  unfold tcpServerOnAccept
  dsimp only
  rw [wp_bind, wp_modify]
  refine (?_ : Triple (Machine.Intact E) _ _ Crashed) _ (intact_addClient inp _)
  apply Triple.bind keeps_addEventRead
  intro _
  split
  . next happ => exact settles_redir_onAccept (by simp [happ])
  . exact settles_pure

structure Sound (E : Env κ) (srv : TcpServer κ) : Prop where
  faults : .useAfterFree ∉ srv.faults
  closes : ∀ p ∈ srv.pairs, ∀ s, Io.closes s p.trace ≤ 1
  settled : srv.crashed = false → ∀ p ∈ srv.pairs, ∀ inp, Settled E (srv.machine p inp)

theorem closes_of_settled {m : Machine κ} (h : Settled E m) (s : Side) : Io.closes s m.trace ≤ 1 := by
  rcases h with h | h
  . rw [h.closes]
    omega
  . exact h.closes s

theorem Sound.exec (h : srv.Sound E) (hcrashed : srv.crashed = false) {i : Nat} {x : Proc κ Unit}
    {inp : Inputs κ}
    (hx : ∀ p, srv.pairs[i]? = some p → wp x (fun _ => Settled E) Crashed (srv.machine p inp))
    : (srv.exec i x inp).Sound E := by
  unfold TcpServer.exec
  split
  . exact h
  . next p hp =>
    have hx := hx p hp
    rw [wp] at hx
    split at hx
    . next m hm =>
      rw [hm]
      constructor
      case faults => exact h.faults
      case closes =>
        intro p' hp'
        rcases List.mem_or_eq_of_mem_set hp' with hp' | rfl
        . exact h.closes p' hp'
        . exact closes_of_settled hx
      case settled =>
        intro _ p' hp' inp'
        rcases List.mem_or_eq_of_mem_set hp' with hp' | rfl
        . exact settled_machine (h.settled hcrashed p' hp' inp') _ _
        . have hx : Settled E ((srv.store i m).machine ⟨m.conn, m.remote, m.trace⟩ m.inp) := hx
          exact settled_machine hx _ _
    . next f m hm =>
      obtain ⟨hf, hcloses⟩ := hx
      rw [hm]
      constructor
      case faults =>
        have := h.faults
        simp [TcpServer.fault, TcpServer.store, this, hf.symm]
      case closes =>
        intro p' hp'
        rcases List.mem_or_eq_of_mem_set hp' with hp' | rfl
        . exact h.closes p' hp'
        . exact hcloses
      case settled =>
        intro hcrashed'
        simp [TcpServer.fault, TcpServer.store, hf] at hcrashed'

/--
The condition on a step: if it finds the remote of a client of xs-server connected, then the socket of
the remote accepts all bytes that are left in the buffer of the client.
-/
def TakesLeft (E : Env κ) (srv : TcpServer κ) (a : Event × Inputs κ) : Prop :=
  match a.1 with
  | .ready i .remote r =>
    ∀ p ∈ srv.pairs[i]?, (p.conn .remote).registered r = true → r ≠ .timeout
      → (srv.machine p a.2).TakesLeft E
  | _ => True

instance (srv : TcpServer κ) : ∀ a, Decidable (srv.TakesLeft E a)
  | (.accept, _) => .isTrue trivial
  | (.ready _ .client _, _) => .isTrue trivial
  | (.ready i .remote _, _) => inferInstanceAs (Decidable (∀ p ∈ srv.pairs[i]?, _ → _ → _))

def next (E : Env κ) (srv : TcpServer κ) (a : Event × Inputs κ) : Except Fault (TcpServer κ) :=
  .ok (srv.step E a)

theorem Sound.step (h : srv.Sound E) {a : Event × Inputs κ} (ha : srv.TakesLeft E a)
    : (srv.step E a).Sound E := by
  unfold TcpServer.step
  split
  . exact h
  . next hcrashed =>
    have hcrashed : srv.crashed = false := by simpa using hcrashed
    split
    . -- A place for the client is added.
      have hadd : Sound E { srv with pairs := srv.pairs ++ [Pair.absent] } := by
        constructor
        case faults => exact h.faults
        case closes =>
          intro p hp
          rcases List.mem_append.mp hp with hp | hp
          . exact h.closes p hp
          . rw [List.mem_singleton.mp hp]
            exact fun _ => Nat.zero_le _
        case settled =>
          intro _ p hp inp
          rcases List.mem_append.mp hp with hp | hp
          . exact settled_machine (h.settled hcrashed p hp inp) _ _
          . rw [List.mem_singleton.mp hp]
            exact settled_absent inp
      apply hadd.exec hcrashed
      intro p hp
      simp only [List.getElem?_concat_length, Option.some.injEq] at hp
      rw [← hp]
      exact wp_tcpServerOnAccept _
    . next i s r hevent =>
      split
      . exact h
      . next p hp =>
        split
        . next hreg =>
          apply h.exec hcrashed
          intro p' hp'
          rw [hp] at hp'
          simp only [Option.some.injEq] at hp'
          subst hp'
          rcases h.settled hcrashed p (List.mem_of_getElem? hp) a.2 with hintact | hover
          . apply wp_handler_settled hintact
            intro hs hr
            subst hs
            rw [TakesLeft, hevent] at ha
            exact ha p hp hreg hr
          . -- Nothing is registered for a pair that has been freed.
            have hnot := hover.not_registered s r
            rw [TcpServer.machine, hreg] at hnot
            contradiction
        . exact h

end TcpServer

/--
As long as the bytes that are left from the handshake can be written at once, no run of a server uses a
connection that has been freed.
-/
theorem no_use_after_free (E : Env κ) (as : List (Event × Inputs κ))
    (has : Along (TcpServer.next E) (TcpServer.TakesLeft E) .new as)
    : ∃ srv, run (TcpServer.next E) .new as = .ok srv ∧ .useAfterFree ∉ srv.faults
        ∧ ∀ p ∈ srv.pairs, ∀ s, Io.closes s p.trace ≤ 1 := by
  have hnew : TcpServer.Sound E (.new : TcpServer κ) := ⟨by simp [TcpServer.new], by simp [TcpServer.new],
    by simp [TcpServer.new]⟩
  obtain ⟨srv, hrun, h⟩ := exists_run (fun srv a h ha => ⟨srv.step E a, rfl, h.step ha⟩) hnew has
  exact ⟨srv, hrun, h.faults, h.closes⟩

/--
A client of xs-server that sends the address 127.0.0.1:80 with the data `9, 9`. When the remote is
connected, its socket accepts `n` bytes.
-/
def connectEvents (n : Nat) : List (Event × Inputs Unit) :=
  [
    (.accept, .idle ()),
    (.ready 0 .client .read,
      { Inputs.idle () with reads := [[.data [1, 127, 0, 0, 1, 0, 80, 9, 9]]] }),
    (.ready 0 .remote .write, { Inputs.idle () with writes := [[.count n]] })
  ]

theorem no_use_after_free_written
    : let as := connectEvents 2 ++ [(.ready 0 .client .read, { Inputs.idle () with reads := [[.data []]] })]
      ∃ srv, run (TcpServer.next (.default .xsServer .copy .text)) .new as = .ok srv
        ∧ .useAfterFree ∉ srv.faults ∧ ∀ p ∈ srv.pairs, ∀ s, Io.closes s p.trace ≤ 1 := by
  intro as
  exact no_use_after_free _ as (by decide +kernel)

/--
Only one of two bytes is written: `tcpRemoteOnConnect` frees the pair, and `tcpConnWriteHandler` goes on
with the connection.
-/
theorem use_after_free
    : ∃ srv, run (TcpServer.next (.default .xsServer .copy .text)) .new (connectEvents 1) = .ok srv
        ∧ .useAfterFree ∈ srv.faults :=
  exists_ok_of_eval _ (by decide +kernel)

end Xsocks
