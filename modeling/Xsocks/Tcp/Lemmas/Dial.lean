import Xsocks.Tcp.Lemmas.Engaged

/-!
This module contains what the handlers do to a client that has no remote yet, up to the point where its
remote has been dialled.
-/

namespace Xsocks

open Wp

variable {κ : Type}

namespace Machine

def Phase (E : Env κ) (m : Machine κ) : Prop :=
  m.Handshaking E ∨ ∃ left, m.Engaged E left

def Waits (m₀ : Machine κ) (E : Env κ) (m : Machine κ) : Prop :=
  m₀.Follows m ∧ m.Handshaking E

def Reached (m₀ : Machine κ) (E : Env κ) (m : Machine κ) : Prop :=
  m₀.Follows m ∧ m.Phase E

def Fallen (m₀ : Machine κ) (f : Fault) (m : Machine κ) : Prop :=
  ∃ left, m₀.Broken left f m

variable {E : Env κ} {m₀ m m' : Machine κ}

theorem Engaged.congr {left : List Byte} (h : m.Engaged E left) (hconn : m'.conn = m.conn)
    (hremote : m'.remote = m.remote) (htrace : m'.trace = m.trace)
    : m'.Engaged E left := by
  obtain ⟨conn, remote, _, _, _, trace⟩ := m
  obtain ⟨conn', remote', _, _, _, trace'⟩ := m'
  simp only at hconn hremote htrace
  subst hconn hremote htrace
  rcases h with h | h | h
  . exact .inl ⟨h.intact.congr rfl rfl fun _ => rfl, h.remote, h.client, h.connecting, h.unpiped, h.re,
      h.weClient, h.weRemote, h.pipe, h.left, h.unleft, h.early⟩
  . exact .inr (.inl ⟨h.intact.congr rfl rfl fun _ => rfl, h.remote, h.connected, h.flow, h.pipe, h.trace⟩)
  . exact .inr (.inr ⟨⟨h.ended.dead, h.ended.lost, h.ended.closes⟩, h.story⟩)

theorem Phase.congr (h : m.Phase E) (hconn : m'.conn = m.conn) (hremote : m'.remote = m.remote)
    (htrace : m'.trace = m.trace)
    : m'.Phase E := by
  rcases h with h | ⟨left, h⟩
  . obtain ⟨conn, remote, _, _, _, trace⟩ := m
    obtain ⟨conn', remote', _, _, _, trace'⟩ := m'
    simp only at hconn hremote htrace
    subst hconn hremote htrace
    exact .inl ⟨h.intact.congr rfl rfl fun _ => rfl, h.remote, h.connected, h.re, h.we, h.pipe, h.rbufOff,
      h.early⟩
  . exact .inr ⟨left, h.congr hconn hremote htrace⟩

theorem Phase.handshaking (h : m.Phase E) (hlive : (m.conn .client).live = true) (hremote : m.remote = false)
    : m.Handshaking E := by
  rcases h with h | ⟨left, h | h | h⟩
  . exact h
  . rw [h.remote] at hremote
    contradiction
  . rw [h.remote] at hremote
    contradiction
  . rw [(h.ended.dead .client).live] at hlive
    contradiction

theorem Handshaking.usable (h : m.Handshaking E) : m.Usable .client :=
  h.intact.alive.client

theorem Waits.framed (h : m₀.Waits E m) (hm : m.Framed .client m') : m₀.Waits E m' :=
  ⟨h.1.trans hm.follows, h.2.framed hm⟩

theorem Waits.reached (h : m₀.Waits E m) : m₀.Reached E m :=
  ⟨h.1, .inl h.2⟩

theorem Waits.fallen (h : m₀.Waits E m) {f : Fault} (hf : f ≠ .useAfterFree) : m₀.Fallen f m := by
  refine ⟨[], h.1, .early h.2.early, fun heq => absurd heq hf, fun _ hmem => ?_⟩
  exact h.2.early _ hmem

theorem Waits.freed (h : m₀.Waits E m) : m₀.Reached E m.freed :=
  ⟨h.1.trans (follows_freed h.2.intact.alive),
    .inr ⟨[], .inr (.inr (h.2.intact.finished_freed (.early h.2.early)))⟩⟩

theorem Waits.closed (h : m₀.Waits E m) : m₀.Reached E (m.closed .client) :=
  ⟨h.1.trans (follows_closed h.2.intact.alive .client),
    .inr ⟨[], .inr (.inr (h.2.intact.finished_closed (.early h.2.early) .client))⟩⟩

theorem Waits.log (h : m₀.Waits E m) {io : Io} (hio : io.Early) (hfree : io ≠ .connectionFree)
    (hclose : ∀ s, io ≠ .onClose s)
    : m₀.Waits E (m.log io) := by
  refine ⟨h.1.trans (follows_log hfree), h.2.intact.log hclose, h.2.remote, h.2.connected, h.2.re, h.2.we,
    h.2.pipe, h.2.rbufOff, ?_⟩
  exact Io.forall_mem_append h.2.early (by simpa using hio)

theorem Handshaking.dialled (h : m.Handshaking E) {type : ConnType} {host : CString} {port : Nat}
    (htype : E.app = .xsServer → type = .RAW)
    : (m.dialled E type host port).Dialling E [] := by
  have hadd : ((m.log (.connect host port)).addRemote (.new (.new type m.inp) false E.timeout)).Intact E :=
    Intact.addRemote (h.intact.log (by simp)) htype
  have htimer := hadd.upd hadd.alive.client (f := fun c => { c with timer := c.timer.set (-1) })
    ⟨fun _ => rfl, fun _ => rfl, fun _ h => h⟩
  constructor
  case intact =>
    exact htimer.upd (f := fun c => { c with re := false }) htimer.alive.client
      ⟨fun _ => rfl, fun _ => rfl, fun _ h => h⟩
  case remote => rfl
  case client =>
    rw [conn_dialled_client]
    exact h.connected
  case connecting =>
    rw [conn_dialled_remote]
    rfl
  case unpiped =>
    rw [conn_dialled_remote]
    rfl
  case re =>
    intro s
    cases s with
    | client => rw [conn_dialled_client]
    | remote =>
      rw [conn_dialled_remote]
      rfl
  case weClient =>
    rw [conn_dialled_client]
    exact h.we
  case weRemote =>
    rw [conn_dialled_remote]
    rfl
  case pipe =>
    intro s
    cases s with
    | client =>
      rw [conn_dialled_client]
      exact h.pipe
    | remote =>
      rw [conn_dialled_remote]
      rfl
  case left => rw [rbufOff_dialled, h.rbufOff, Mem.read_zero]
  case unleft =>
    intro _
    rw [rbufOff_dialled]
    exact h.rbufOff
  case early =>
    rw [trace_dialled]
    exact Io.forall_mem_append h.early (by simp [Io.Early])

theorem Dialling.rewind (h : m.Dialling E []) (happ : E.app = .xsServer) {f : TcpConn κ → TcpConn κ}
    (hf : ∀ c, f c = { c with rbuf := (f c).rbuf, rbufOff := (f c).rbufOff })
    : (m.upd .client f).Dialling E
        ((f (m.conn .client)).rbuf.read 0 (f (m.conn .client)).rbufOff) := by
  constructor
  case intact =>
    refine h.intact.upd h.intact.alive.client ⟨?_, ?_, ?_⟩
    . intro c
      rw [hf]
    . intro c
      rw [hf]
    . intro c hraw
      rw [hf]
      exact hraw
  case remote => exact h.remote
  case client =>
    rw [conn_upd_self, hf]
    exact h.client
  case connecting => exact h.connecting
  case unpiped => exact h.unpiped
  case re =>
    intro s
    cases s with
    | client =>
      rw [conn_upd_self, hf]
      exact h.re .client
    | remote => exact h.re .remote
  case weClient =>
    rw [conn_upd_self, hf]
    exact h.weClient
  case weRemote => exact h.weRemote
  case pipe =>
    intro s
    cases s with
    | client =>
      rw [conn_upd_self, hf]
      exact h.pipe .client
    | remote => exact h.pipe .remote
  case left => rw [conn_upd_self]
  case unleft => exact fun hne => absurd happ hne
  case early => exact h.early

end Machine

section

variable {E : Env κ} {m₀ : Machine κ}

theorem waits_pure : Triple (m₀.Waits E) (pure ()) (fun _ => m₀.Reached E) m₀.Fallen :=
  Triple.pure fun _ h => h.reached

theorem waits_throw {α : Type} {f : Fault} (hf : f ≠ .useAfterFree) {Q : α → Machine κ → Prop}
    : Triple (m₀.Waits E) (throw f) Q m₀.Fallen :=
  Triple.throw fun _ h => h.fallen hf

theorem waits_deref_bind {α : Type} {x : TcpConn κ → Proc κ α} {Q : α → Machine κ → Prop}
    (hx : ∀ c, Triple (m₀.Waits E) (x c) Q m₀.Fallen)
    : Triple (m₀.Waits E) (deref .client >>= x) Q m₀.Fallen := by
  intro m h
  rw [wp_bind, wp_deref h.2.usable]
  exact hx _ m h

theorem waits_tcpConnectionFree
    : Triple (m₀.Waits E) tcpConnectionFree (fun _ => m₀.Reached E) m₀.Fallen := by
  intro m h
  rw [wp_tcpConnectionFree h.2.intact.alive]
  exact h.freed

theorem waits_bind {x : Proc κ Int} {f : Int → Proc κ Unit}
    (hx : ∀ m : Machine κ, m.Alive → Replies m .client x)
    (hok : ∀ r, 0 ≤ r → Triple (m₀.Waits E) (f r) (fun _ => m₀.Reached E) m₀.Fallen)
    (herr : f ERR = pure ())
    : Triple (m₀.Waits E) (x >>= f) (fun _ => m₀.Reached E) m₀.Fallen := by
  intro m h
  rw [wp_bind]
  apply wp_mono (hx m h.2.intact.alive m Machine.framed_refl)
  . intro r m' hr
    rcases hr with ⟨hr, hm'⟩ | ⟨hr, m'', hm'', rfl⟩
    . exact hok r hr m' (h.framed hm')
    . rw [hr, herr]
      exact (h.framed hm'').closed
  . intro f m' ⟨hf, hm'⟩
    exact (h.framed hm').fallen hf

theorem waits_parseDest {addrbufDest : List Byte}
    : Triple (m₀.Waits E) (parseDest E addrbufDest) (fun _ => m₀.Waits E) m₀.Fallen := by
  unfold parseDest
  split
  . exact Triple.pure fun _ h => h
  . exact waits_throw (by simp)

theorem waits_isBypass {ip : CString}
    : Triple (m₀.Waits E) (isBypass E ip) (fun _ => m₀.Waits E) m₀.Fallen := by
  by_cases hacl : E.acl = true
  . exact fun m h => wp_isBypass hacl ip fun _ => h
  . unfold isBypass aclMatchHost
    rw [if_neg hacl]
    exact Triple.bind (Q := fun _ _ => False) (waits_throw (by simp)) fun _ _ h => h.elim

theorem waits_tcpRemoteNew {type : ConnType} {host : CString} {port : Nat}
    (htype : E.app = .xsServer → type = .RAW) {x : Bool → Proc κ Unit}
    (hok : Triple (fun m => m₀.Follows m ∧ m.Dialling E []) (x true) (fun _ => m₀.Reached E) m₀.Fallen)
    (herr : x false = tcpConnectionFree)
    : Triple (m₀.Waits E) (tcpRemoteNew E type host port >>= x) (fun _ => m₀.Reached E) m₀.Fallen := by
  intro m h
  rw [wp_bind, wp_tcpRemoteNew h.2.usable]
  split
  . apply hok
    exact ⟨h.1.trans (Machine.follows_dialled h.2.usable h.2.remote type host port), h.2.dialled htype⟩
  . rw [herr]
    exact waits_tcpConnectionFree _ (h.log trivial (by simp) (by simp))

theorem dialled_pure
    : Triple (fun m => m₀.Follows m ∧ m.Dialling E []) (pure ()) (fun _ => m₀.Reached E) m₀.Fallen :=
  Triple.pure fun _ h => ⟨h.1, .inr ⟨[], .inl h.2⟩⟩

theorem dialled_tcpShadowsocksConnInit {host : CString} {port : Nat}
    : Triple (fun m => m₀.Follows m ∧ m.Dialling E []) (tcpShadowsocksConnInit E .remote host port)
        (fun _ => m₀.Reached E) m₀.Fallen := by
  intro m ⟨hfollows, h⟩
  have hremote := h.intact.alive.remote h.remote
  rw [tcpShadowsocksConnInit, wp_bind, wp_get]
  split
  . next addr _ =>
    rw [assignShadowsocks, wp_assign hremote]
    have hframed : m.Framed .remote
        (m.upd .remote fun c => c.updShadowsocks fun c => { c with addrbufDest := addr }) :=
      Machine.framed_refl.upd (TcpConn.kept_updShadowsocks _)
    exact ⟨hfollows.trans hframed.follows, .inr ⟨[], .inl (h.framed hframed h.early)⟩⟩
  . refine ⟨[], hfollows, .early h.early, by simp, fun _ hmem => ?_⟩
    exact h.early _ hmem

theorem waits_local_newRemote (happ : E.app ≠ .xsServer) {addrbufDest : Sds}
    : Triple (m₀.Waits E) (Local.newRemote E addrbufDest) (fun _ => m₀.Reached E) m₀.Fallen := by
  unfold Local.newRemote
  split
  . exact waits_throw (by simp)
  . apply Triple.bind waits_parseDest
    intro addr
    refine Triple.bind (Q := fun _ => m₀.Waits E) (fun m h => Local.wp_bypass _ _ fun _ => h) ?_
    intro bypass
    split
    . exact waits_tcpRemoteNew (fun happ' => absurd happ' happ) dialled_pure rfl
    . exact waits_tcpRemoteNew (fun happ' => absurd happ' happ) dialled_tcpShadowsocksConnInit rfl

theorem waits_local_tcpClientOnRead (happ : E.app ≠ .xsServer)
    : Triple (m₀.Waits E) (Local.tcpClientOnRead E) (fun _ => m₀.Reached E) m₀.Fallen := by
  apply waits_deref_bind
  intro c
  refine Triple.bind (Q := fun _ => m₀.Waits E) ?_ ?_
  . apply waits_deref_bind
    intro c
    split
    . exact Triple.pure fun _ h => h
    . exact waits_throw (by simp)
  . intro s5
    split
    . apply waits_bind fun _ h => replies_connRead h
      . intro nread hnread
        split
        . apply waits_deref_bind
          intro c
          exact waits_bind (fun _ h => replies_connWrite h) (fun _ _ => waits_pure) rfl
        . exact waits_pure
      . rfl
    . intro m h
      rw [wp_bind, wp_get, if_pos h.2.remote]
      exact waits_local_newRemote happ m h

theorem waits_server_newRemote (happ : E.app = .xsServer) {nread : Int}
    : Triple (m₀.Waits E) (Server.newRemote E nread) (fun _ => m₀.Reached E) m₀.Fallen := by
  refine Triple.bind (Q := fun _ => m₀.Waits E) ?_ ?_
  . apply waits_deref_bind
    intro c
    split
    . exact Triple.pure fun _ h => h
    . exact waits_throw (by simp)
  . intro ss
    apply Triple.bind waits_parseDest
    intro addr
    dsimp only
    split
    . exact waits_tcpConnectionFree
    . refine waits_tcpRemoteNew (fun _ => rfl) ?_ rfl
      intro m ⟨hfollows, h⟩
      rw [if_neg (by simp), wp_assign h.intact.alive.client]
      refine ⟨hfollows.trans (Machine.follows_upd ?_ ?_), .inr ⟨_, .inl (h.rewind happ ?_)⟩⟩
      . intro c
        split <;> rfl
      . intro c
        split <;> rfl
      . intro c
        split <;> rfl

theorem waits_server_tcpClientOnRead (happ : E.app = .xsServer)
    : Triple (m₀.Waits E) (Server.tcpClientOnRead E) (fun _ => m₀.Reached E) m₀.Fallen := by
  apply waits_deref_bind
  intro c m h
  rw [wp_bind, wp_get, if_pos h.2.remote]
  refine (?_ : Triple (m₀.Waits E) _ _ m₀.Fallen) m h
  apply waits_bind fun _ h => replies_connRead h
  . intro nread hnread
    split
    . exact waits_server_newRemote happ
    . exact waits_pure
  . rfl

theorem waits_redir_tcpClientOnRead
    : Triple (m₀.Waits E) (Redir.tcpClientOnRead E) (fun _ => m₀.Reached E) m₀.Fallen := by
  apply waits_deref_bind
  intro c m h
  rw [wp_bind, deref, wp_bind, wp_get, if_pos ⟨rfl, h.2.remote⟩, wp_throw]
  exact h.fallen (by simp)

theorem waits_redir_onAccept (happ : E.app ≠ .xsServer)
    : Triple (m₀.Waits E) (Redir.onAccept E) (fun _ => m₀.Reached E) m₀.Fallen := by
  apply Triple.bind Triple.get
  intro m
  split
  . exact waits_tcpConnectionFree
  . apply Triple.bind waits_isBypass
    intro bypass
    split
    . exact waits_tcpRemoteNew (fun happ' => absurd happ' happ) dialled_pure rfl
    . exact waits_tcpRemoteNew (fun happ' => absurd happ' happ) dialled_tcpShadowsocksConnInit rfl

end

section

variable {E : Env κ} {m : Machine κ}

theorem Machine.Handshaking.wp_handler (h : m.Handshaking E) (s : Side) (r : Ready)
    (hreg : (m.conn s).registered r = true)
    : wp (handler E s r) (fun _ => m.Reached E) m.Fallen m := by
  have hwaits : m.Waits E m := ⟨.refl, h⟩
  cases s with
  | client =>
    cases r with
    | read =>
      rw [handler, wp_tcpConnReadHandler h.usable h.connected, wp_fireRead_client h.usable]
      unfold tcpClientOnRead
      split
      . next happ => exact waits_local_tcpClientOnRead (by simp [happ]) m hwaits
      . next happ => exact waits_server_tcpClientOnRead happ m hwaits
      . exact waits_redir_tcpClientOnRead m hwaits
    | write =>
      rw [TcpConn.registered, h.we] at hreg
      contradiction
    | timeout =>
      have hstory : Io.Story [] m.trace := .early h.early
      apply wp_mono (h.intact.wp_timeout h.usable hstory)
      . exact fun _ m' hm' => ⟨hm'.1, .inr ⟨[], .inr (.inr hm'.2)⟩⟩
      . exact fun _ _ hF => hF
  | remote =>
    rw [(h.intact.absent h.remote).not_registered (h.intact.lost .remote)] at hreg
    contradiction

theorem Machine.Engaged.wp_handler {left : List Byte} (h : m.Engaged E left) (s : Side) (r : Ready)
    (hreg : (m.conn s).registered r = true)
    : wp (handler E s r) (fun _ m' => m.Follows m' ∧ m'.Engaged E left) (m.Broken left) m := by
  rcases h with h | h | h
  . exact h.wp_handler s r hreg
  . exact h.wp_handler s r
  . rw [h.ended.not_registered s r] at hreg
    contradiction

theorem Machine.Phase.wp_handler (h : m.Phase E) (s : Side) (r : Ready)
    (hreg : (m.conn s).registered r = true)
    : wp (handler E s r) (fun _ => m.Reached E) m.Fallen m := by
  rcases h with h | ⟨left, h⟩
  . exact h.wp_handler s r hreg
  . apply wp_mono (h.wp_handler s r hreg)
    . exact fun _ m' hm' => ⟨hm'.1, .inr ⟨left, hm'.2⟩⟩
    . exact fun _ m' hm' => ⟨left, hm'⟩

end

end Xsocks
