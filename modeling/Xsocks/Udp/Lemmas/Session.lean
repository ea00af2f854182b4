import Xsocks.Lib.Run
import Xsocks.Udp.Lemmas.Basic

/-!
This module contains all that one event can do to a server and its clients.
-/

namespace Xsocks.Udp

open Wp Run

variable {κ : Type}

structure Target where
  type : ConnType
  host : CString
  port : Nat
  proto : Proto

def Env.target (E : Env κ) (uninit : Uninit) (proto : Proto) : Option Target :=
  match E.app, proto with
  | .xsServer, .raw => none
  | .xsServer, .shadowsocks addrbufDest =>
    (parseAddr E.inet addrbufDest).map fun addr => ⟨.RAW, .ofBuf addr.host, addr.port, .raw⟩
  | .xsTunnel, _ =>
    some ⟨.SHADOWSOCKS, E.remoteAddr, E.remotePort,
      .shadowsocks (encodeAddr E.inet uninit E.tunnelAddr.text E.tunnelPort)⟩

theorem Env.proto_target {E : Env κ} (happ : E.app = .xsServer) {uninit : Uninit} {proto : Proto} {t : Target}
    (h : E.target uninit proto = some t)
    : t.proto = .raw := by
  cases proto with
  | raw => simp [target, happ] at h
  | shadowsocks addrbufDest =>
    simp only [target, happ, Option.map_eq_some_iff] at h
    obtain ⟨addr, -, rfl⟩ := h
    rfl

def Proto.Serves (E : Env κ) (proto : Proto) : Prop :=
  E.app = .xsServer ↔ ∃ addrbufDest, proto = .shadowsocks addrbufDest

theorem Proto.Serves.unwrap {E : Env κ} {proto proto' : Proto} (h : proto.Serves E) {uninit : Uninit}
    {data buf : List Byte} (heq : proto.unwrap E uninit data = some (buf, proto'))
    : proto'.Serves E := by
  cases proto with
  | raw =>
    simp only [Proto.unwrap, Option.some.injEq, Prod.mk.injEq] at heq
    rw [← heq.2]
    exact h
  | shadowsocks addrbufDest =>
    have happ : E.app = .xsServer := h.mpr ⟨_, rfl⟩
    obtain ⟨P, addr, -, -, -, rfl⟩ := Proto.unwrap_shadowsocks heq
    exact ⟨fun _ => ⟨_, rfl⟩, fun _ => happ⟩

theorem Proto.Serves.exists_target {E : Env κ} (hI : E.inet.Lawful) {proto proto' : Proto}
    (h : proto.Serves E) {uninit : Uninit} {data buf : List Byte}
    (heq : proto.unwrap E uninit data = some (buf, proto')) (uninit' : Uninit)
    : ∃ t, E.target uninit' proto' = some t := by
  unfold Env.target
  cases happ : E.app with
  | xsTunnel => exact ⟨_, rfl⟩
  | xsServer =>
    obtain ⟨addrbufDest, rfl⟩ := h.mp happ
    obtain ⟨P, addr, -, haddr, -, rfl⟩ := Proto.unwrap_shadowsocks heq
    have hparsed := parsed_of_parseAddr haddr
    have hlen := CString.length_ofBuf_le addr.host
    have hhost := hparsed.length_host
    dsimp only
    rw [parseAddr_encodeAddr hI uninit (.ofBuf addr.host) (by omega) hparsed.port]
    exact ⟨_, rfl⟩

namespace Machine

inductive Reads (E : Env κ) (m : Machine) (s : Side) : Option (List Byte) → Machine → Prop where
  | error (hrecv : m.inp.recv = .error) : Reads E m s none ((m.stopped s).closed s)
  | empty {sa : SockAddr} (hrecv : m.inp.recv = .datagram sa []) : Reads E m s none ((m.got s sa []).closed s)
  | garbled {sa : SockAddr} {data : List Byte} (hrecv : m.inp.recv = .datagram sa data) (hdata : data ≠ [])
      (hplain : (m.conn s).proto.unwrap E m.inp.uninit (data.take NET_IOBUF_LEN) = none)
      : Reads E m s none ((m.received s sa (data.take NET_IOBUF_LEN)).closed s)
  | plain {sa : SockAddr} {data buf : List Byte} {proto : Proto} (hrecv : m.inp.recv = .datagram sa data)
      (hdata : data ≠ [])
      (hplain : (m.conn s).proto.unwrap E m.inp.uninit (data.take NET_IOBUF_LEN) = some (buf, proto))
      : Reads E m s (some buf) ((m.received s sa (data.take NET_IOBUF_LEN)).withProto s proto)

theorem wp_connRead_reads {E : Env κ} {m : Machine} {s : Side} {F : Fault → Machine → Prop}
    (h : s = .remote → m.Linked)
    : wp (connRead E s) (m.Reads E s) F m := by
  rw [wp_connRead h]
  cases hrecv : m.inp.recv with
  | error => exact .error hrecv
  | datagram sa data =>
    have htake : data.take NET_IOBUF_LEN = [] ↔ data = [] := by
      rw [List.take_eq_nil_iff, or_iff_right (by decide)]
    rw [netUdpRead]
    dsimp only
    split
    . next hnil =>
      rw [htake] at hnil
      subst hnil
      exact .empty hrecv
    . next hnil =>
      rw [htake] at hnil
      cases hplain : (m.conn s).proto.unwrap E m.inp.uninit (data.take NET_IOBUF_LEN) with
      | none => exact .garbled hrecv hnil hplain
      | some p => exact .plain hrecv hnil hplain

inductive Writes (E : Env κ) (m : Machine) (s : Side) (buf : List Byte) (sa : SockAddr) : Machine → Prop where
  | failed (h : m.inp.sendto = false ∨ (m.conn s).proto.wrap E m.inp.nonce buf = none)
      : Writes E m s buf sa (m.closed s)
  | sent {data : List Byte} (hsendto : m.inp.sendto = true)
      (hwrap : (m.conn s).proto.wrap E m.inp.nonce buf = some data)
      : Writes E m s buf sa (m.log (.send s sa data))

theorem wp_connWrite_writes {E : Env κ} {m : Machine} {s : Side} {F : Fault → Machine → Prop}
    (h : s = .remote → m.Linked) (buf : List Byte) (sa : SockAddr)
    : wp (connWrite E s buf sa) (fun _ => m.Writes E s buf sa) F m := by
  rw [wp_connWrite h]
  cases hwrap : (m.conn s).proto.wrap E m.inp.nonce buf with
  | none => exact .failed (.inr hwrap)
  | some data =>
    dsimp only
    split
    . next hsendto => exact .failed (.inl hsendto)
    . next hsendto => exact .sent (by simpa using hsendto) hwrap

def linkedTo (m : Machine) (E : Env κ) (t : Target) (sa : SockAddr) : Machine :=
  (m.bound E t.type sa).withProto .remote t.proto

inductive Served (E : Env κ) (m : Machine) : Machine → Prop where
  | unread {m₁ : Machine} (hread : m.Reads E .server none m₁) : Served E m m₁.dropped
  | uncreated {buf : List Byte} {m₁ : Machine} (hread : m.Reads E .server (some buf) m₁)
      (hcreate : m.inp.create = false)
      : Served E m m₁.dropped
  | linked {buf : List Byte} {m₁ m₂ : Machine} {t : Target} {sa : SockAddr}
      (hread : m.Reads E .server (some buf) m₁) (hcreate : m.inp.create = true)
      (htarget : E.target m.inp.uninit m₁.server.proto = some t)
      (hsa : netUdpGetSockAddrEx E.ipv6First (m.inp.getaddrinfo t.host t.port) .unset = some sa)
      (hwrite : (m₁.linkedTo E t sa).Writes E .remote buf sa m₂)
      : Served E m m₂

inductive Orphans (E : Env κ) (m : Machine) : Machine → Prop where
  | unresolved {buf : List Byte} {m₁ : Machine} {t : Target}
      (hread : m.Reads E .server (some buf) m₁) (hcreate : m.inp.create = true)
      (htarget : E.target m.inp.uninit m₁.server.proto = some t)
      (hsa : netUdpGetSockAddrEx E.ipv6First (m.inp.getaddrinfo t.host t.port) .unset = none)
      : Orphans E m ({ m₁.orphaned E t.type with remoteCount := m₁.remoteCount - 1 }.log .remoteFree)

inductive Answered (E : Env κ) (m : Machine) : Machine → Prop where
  | unread {m₁ : Machine} (hread : m.Reads E .remote none m₁) : Answered E m m₁
  | answered {buf : List Byte} {m₁ m₂ : Machine} (hread : m.Reads E .remote (some buf) m₁)
      (hwrite : m₁.Writes E .server buf m₁.client.saClient m₂)
      : Answered E m m₂.freed

structure Kept (m m₁ : Machine) : Prop where
  live : m₁.client.live = m.client.live
  remote : m₁.client.remote = m.client.remote
  conn : m₁.client.conn = m.client.conn
  saRemote : m₁.client.saRemote = m.client.saRemote
  remoteCount : m₁.remoteCount = m.remoteCount
  inp : m₁.inp = m.inp

variable {E : Env κ} {m m₁ : Machine}

theorem Reads.kept {r : Option (List Byte)} (h : m.Reads E .server r m₁) : m.Kept m₁ := by
  cases h <;> exact ⟨rfl, rfl, rfl, rfl, rfl, rfl⟩

theorem Reads.trace_server {r : Option (List Byte)} (h : m.Reads E .server r m₁)
    : m₁.trace = m.trace ∨ ∃ sa data, m₁.trace = m.trace ++ [.recv .server sa data] := by
  cases h with
  | error => exact .inl rfl
  | empty => exact .inr ⟨_, _, rfl⟩
  | garbled => exact .inr ⟨_, _, rfl⟩
  | plain => exact .inr ⟨_, _, rfl⟩

theorem Reads.exists_target (hI : E.inet.Lawful) (hproto : m.server.proto.Serves E) {buf : List Byte}
    (h : m.Reads E .server (some buf) m₁)
    : m₁.server.proto.Serves E ∧ ∃ t, E.target m.inp.uninit m₁.server.proto = some t := by
  cases h with
  | plain hrecv hdata hplain =>
    exact ⟨hproto.unwrap hplain, hproto.exists_target hI hplain m.inp.uninit⟩

theorem Reads.serves (hproto : m.server.proto.Serves E) {r : Option (List Byte)}
    (h : m.Reads E .server r m₁)
    : m₁.server.proto.Serves E := by
  cases h with
  | error => exact hproto
  | empty => exact hproto
  | garbled => exact hproto
  | plain hrecv hdata hplain => exact hproto.unwrap hplain

theorem Kept.alone (h : m.Kept m₁) (hnew : m.client = .new) : m₁.Alone := by
  constructor
  . rw [h.live, hnew]
    rfl
  . rw [h.remote, hnew]
    rfl

def Mishap (E : Env κ) (m : Machine) (f : Fault) (m' : Machine) : Prop :=
  f = .useAfterFree ∧ m.Orphans E m'

theorem wp_udpRemoteNew_served (hnew : m.client = .new) {buf : List Byte}
    (hread : m.Reads E .server (some buf) m₁) {t : Target}
    (htarget : E.target m.inp.uninit m₁.server.proto = some t) {k : Proc Unit}
    (hk : ∀ sa, wp k (fun _ => (m₁.linkedTo E t sa).Writes E .remote buf sa) (m.Mishap E) (m₁.bound E t.type sa))
    : wp (do
        let ok ← udpRemoteNew E t.type t.host t.port
        if ok = false then udpConnectionFree else k)
      (fun _ => m.Served E) (m.Mishap E) m₁ := by
  have hkept := hread.kept
  have halone := hkept.alone hnew
  have hsa : m₁.client.saRemote = .unset := by
    rw [hkept.saRemote, hnew]
    rfl
  rw [wp_bind, wp_udpRemoteNew halone.client, hkept.inp, hsa]
  split
  . next hcreate =>
    rw [if_pos rfl, wp_udpConnectionFree_alone halone]
    exact .uncreated hread hcreate
  . next hcreate =>
    have hcreate : m.inp.create = true := by simpa using hcreate
    cases hres : netUdpGetSockAddrEx E.ipv6First (m.inp.getaddrinfo t.host t.port) .unset with
    | none =>
      -- `client->remote` is not `NULL`, but what it points to has been freed.
      have hclient : (m₁.orphaned E t.type).client.live = true := halone.client
      dsimp only
      rw [if_pos rfl, udpConnectionFree, wp_bind, wp_derefClient hclient, if_pos (by rfl), wp_bind, wp_modify,
        wp_bind, udpRemoteFree, wp_bind, wp_get, if_pos (by rfl), wp_bind, wp_logIo]
      exact ⟨rfl, .unresolved hread hcreate htarget hres⟩
    | some sa =>
      dsimp only
      rw [if_neg (by simp)]
      exact wp_mono (hk sa) (fun _ _ hwrite => .linked hread hcreate htarget hres hwrite) fun _ _ hf => hf

end Machine

section

variable {E : Env κ} {m : Machine}

theorem wp_connWrite_remote (hlinked : m.Linked) (buf : List Byte) {F : Fault → Machine → Prop}
    : wp (do
        let c ← derefClient
        let _ ← connWrite E .remote buf c.saRemote)
      (fun _ => m.Writes E .remote buf m.client.saRemote) F m := by
  rw [wp_bind, wp_derefClient hlinked.client, wp_bind]
  exact Machine.wp_connWrite_writes (fun _ => hlinked) buf m.client.saRemote

theorem Server.wp_udpServerOnRead (hI : E.inet.Lawful) (happ : E.app = .xsServer)
    (hproto : m.server.proto.Serves E) (hnew : m.client = .new)
    : wp (Server.udpServerOnRead E) (fun _ => m.Served E) (m.Mishap E) m := by
  rw [Server.udpServerOnRead, wp_bind]
  refine wp_mono (Machine.wp_connRead_reads (by simp)) ?_ fun _ _ h => h
  intro nread m₁ hread
  have hkept := hread.kept
  cases nread with
  | none =>
    dsimp only
    rw [wp_udpConnectionFree_alone (hread.kept.alone hnew)]
    exact .unread hread
  | some buf =>
    obtain ⟨hserves, t, htarget⟩ := hread.exists_target hI hproto
    obtain ⟨addrbufDest, haddrbuf⟩ := hserves.mp happ
    have hparse := htarget
    simp only [Env.target, happ, haddrbuf, Option.map_eq_some_iff] at hparse
    obtain ⟨addr, haddr, rfl⟩ := hparse
    dsimp only
    rw [wp_bind, parseDest, wp_bind, wp_deref Machine.usable_server]
    dsimp only [Machine.conn]
    rw [haddrbuf]
    dsimp only
    rw [← parseAddr, haddr, wp_pure]
    apply Machine.wp_udpRemoteNew_served hnew hread htarget
    intro sa
    have hraw : m₁.linkedTo E ⟨.RAW, .ofBuf addr.host, addr.port, .raw⟩ sa = m₁.bound E .RAW sa := rfl
    rw [hraw]
    exact wp_connWrite_remote (Machine.linked_bound (hread.kept.alone hnew).client) buf

theorem Tunnel.wp_udpServerOnRead (hI : E.inet.Lawful) (happ : E.app = .xsTunnel)
    (hproto : m.server.proto.Serves E) (hnew : m.client = .new)
    : wp (Tunnel.udpServerOnRead E) (fun _ => m.Served E) (m.Mishap E) m := by
  rw [Tunnel.udpServerOnRead, wp_bind]
  refine wp_mono (Machine.wp_connRead_reads (by simp)) ?_ fun _ _ h => h
  intro nread m₁ hread
  cases nread with
  | none =>
    dsimp only
    rw [wp_udpConnectionFree_alone (hread.kept.alone hnew)]
    exact .unread hread
  | some buf =>
    obtain ⟨-, t, htarget⟩ := hread.exists_target hI hproto
    have ht := htarget
    simp only [Env.target, happ, Option.some.injEq] at ht
    subst ht
    apply Machine.wp_udpRemoteNew_served hnew hread htarget
    intro sa
    have hlinked : (m₁.bound E .SHADOWSOCKS sa).Linked := Machine.linked_bound (hread.kept.alone hnew).client
    rw [wp_bind, wp_udpShadowsocksConnInit (hlinked.usable _), ← hread.kept.inp]
    exact wp_connWrite_remote (Machine.linked_withProto.mpr hlinked) buf

theorem wp_udpServerOnRead (hI : E.inet.Lawful) (hproto : m.server.proto.Serves E) (hnew : m.client = .new)
    : wp (udpServerOnRead E) (fun _ => m.Served E) (m.Mishap E) m := by
  unfold udpServerOnRead
  split
  . next happ => exact Server.wp_udpServerOnRead hI happ hproto hnew
  . next happ => exact Tunnel.wp_udpServerOnRead hI happ hproto hnew

theorem wp_udpConnReadHandler (hlinked : m.Linked) {F : Fault → Machine → Prop}
    : wp (udpConnReadHandler E) (fun _ => m.Answered E) F m := by
  rw [udpConnReadHandler, wp_bind, wp_deref (hlinked.usable _), udpRemoteOnRead, wp_bind]
  refine wp_mono (Machine.wp_connRead_reads fun _ => hlinked) ?_ fun _ _ h => h
  intro nread m₁ hread
  cases nread with
  | none => exact .unread hread
  | some buf =>
    have hlinked₁ : m₁.Linked := by
      cases hread with
      | plain => exact Machine.linked_withProto.mpr (Machine.linked_received.mpr hlinked)
    dsimp only
    rw [wp_bind, wp_derefClient hlinked₁.client, wp_bind]
    refine wp_mono (Machine.wp_connWrite_writes (by simp) buf _) ?_ fun _ _ h => h
    intro _ m₂ hwrite
    have hlinked₂ : m₂.Linked := by
      cases hwrite <;> exact ⟨hlinked₁.client, hlinked₁.remote, hlinked₁.conn⟩
    rw [wp_udpConnectionFree hlinked₂]
    exact .answered hread hwrite

theorem wp_udpConnTimeoutHandler (hlinked : m.Linked) {F : Fault → Machine → Prop}
    : wp udpConnTimeoutHandler (fun _ m' => m' = m.freed) F m := by
  rw [udpConnTimeoutHandler, wp_bind]
  unfold fireTimeout
  rw [wp_bind, wp_deref (hlinked.usable _), udpRemoteOnTimeout, wp_bind, wp_deref (hlinked.usable _), wp_pure,
    wp_fireClose fun _ => hlinked]
  rfl

end

namespace Session

structure Waiting (p : Session) : Prop where
  client : p.client.live = true
  remote : p.client.remote = true
  conn : p.client.conn.live = true
  lost : p.client.conn.timer.lost = []

structure Over (p : Session) : Prop where
  conn : p.client.conn.live = false
  timer : p.client.conn.timer.registered = false

theorem Over.not_waiting {p : Session} (h : p.Over) : ¬p.Waiting := by
  intro hwaiting
  have hconn := hwaiting.conn
  rw [h.conn] at hconn
  contradiction

end Session

namespace Machine

def session (m : Machine) : Session where
  client := m.client
  trace := m.trace

variable {E : Env κ} {m m' : Machine}

theorem over_freed (h : m.client.conn.timer.lost = []) : m.freed.session.Over := by
  refine ⟨rfl, ?_⟩
  show (m.client.conn.timer.clear.te.any _ || m.client.conn.timer.lost.any _) = false
  rw [h]
  rfl

theorem over_dropped (h : m.client.conn = UdpClient.new.conn) : m.dropped.session.Over := by
  constructor
  . show m.client.conn.live = false
    rw [h]
    rfl
  . show m.client.conn.timer.registered = false
    rw [h]
    rfl

theorem lost_new (type : ConnType) (timeout : Int) : (UdpConn.new type timeout).timer.lost = [] := by
  show (Timer.init timeout).lost = []
  unfold Timer.init
  split <;> rfl

@[simp]
theorem trace_linkedTo {t : Target} {sa : SockAddr} : (m.linkedTo E t sa).trace = m.trace :=
  rfl

theorem lost_linkedTo {t : Target} {sa : SockAddr} : (m.linkedTo E t sa).client.conn.timer.lost = [] :=
  lost_new t.type E.timeout

theorem Served.waiting_or_over (hnew : m.client = .new) (h : m.Served E m')
    : m'.session.Waiting ∨ m'.session.Over := by
  cases h with
  | unread hread => exact .inr (over_dropped (by rw [hread.kept.conn, hnew]))
  | uncreated hread hcreate => exact .inr (over_dropped (by rw [hread.kept.conn, hnew]))
  | linked hread hcreate htarget hsa hwrite =>
    have halone := hread.kept.alone hnew
    cases hwrite with
    | failed => exact .inr (over_freed lost_linkedTo)
    | sent => exact .inl ⟨halone.client, rfl, rfl, lost_linkedTo⟩

theorem Orphans.over (h : m.Orphans E m') : m'.session.Over := by
  cases h with
  | unresolved hread hcreate htarget hsa =>
    refine ⟨rfl, ?_⟩
    show (_ || (UdpConn.new _ E.timeout).timer.lost.any _) = false
    rw [lost_new]
    rfl

theorem Orphans.not_mem_send (htrace : m.trace = []) (h : m.Orphans E m') (s : Side) (sa : SockAddr)
    (c : List Byte)
    : .send s sa c ∉ m'.trace := by
  cases h with
  | unresolved hread hcreate htarget hsa =>
    rcases hread.trace_server with heq | ⟨sa', data, heq⟩ <;> simp [orphaned, heq, htrace]

theorem Answered.over (hlost : m.client.conn.timer.lost = []) (h : m.Answered E m') : m'.session.Over := by
  cases h with
  | unread hread => cases hread <;> exact over_freed hlost
  | answered hread hwrite =>
    cases hread with
    | plain => cases hwrite <;> exact over_freed hlost

theorem Served.serves (hproto : m.server.proto.Serves E) (h : m.Served E m') : m'.server.proto.Serves E := by
  cases h with
  | unread hread =>
    have hserves := hread.serves hproto
    exact hserves
  | uncreated hread hcreate =>
    have hserves := hread.serves hproto
    exact hserves
  | linked hread hcreate htarget hsa hwrite =>
    have hserves := hread.serves hproto
    cases hwrite <;> exact hserves

theorem Orphans.serves (hproto : m.server.proto.Serves E) (h : m.Orphans E m')
    : m'.server.proto.Serves E := by
  cases h with
  | unresolved hread hcreate htarget hsa =>
    have hserves := hread.serves hproto
    exact hserves

theorem Reads.server {r : Option (List Byte)} (h : m.Reads E .remote r m') : m'.server = m.server := by
  cases h <;> rfl

theorem Answered.server (h : m.Answered E m') : m'.server = m.server := by
  cases h with
  | unread hread => exact hread.server
  | answered hread hwrite => cases hwrite <;> exact hread.server

end Machine

namespace UdpServer

def add (srv : UdpServer) (m : Machine) : UdpServer :=
  { srv with conn := m.server, remoteCount := m.remoteCount, sessions := srv.sessions ++ [m.session] }

def Enabled (srv : UdpServer) : Event → Prop
  | .request => True
  | .reply i => ∃ p, srv.sessions[i]? = some p ∧ p.client.conn.live = true
  | .timeout i => ∃ p, srv.sessions[i]? = some p ∧ p.client.conn.timer.registered = true

inductive Steps (E : Env κ) (srv : UdpServer) (a : Event × Inputs) : UdpServer → Prop where
  | idle (h : ¬srv.Enabled a.1) : Steps E srv a srv
  | request {m : Machine} (ha : a.1 = .request) (h : (srv.machine .new a.2).Served E m)
      : Steps E srv a (srv.add m)
  | mishap {m : Machine} (ha : a.1 = .request) (h : (srv.machine .new a.2).Orphans E m)
      : Steps E srv a ((srv.add m).fault .useAfterFree)
  | reply {i : Nat} {p : Session} {m : Machine} (ha : a.1 = .reply i) (hp : srv.sessions[i]? = some p)
      (hwaiting : p.Waiting) (h : (srv.machine p a.2).Answered E m)
      : Steps E srv a (srv.store i m)
  | timeout {i : Nat} {p : Session} (ha : a.1 = .timeout i) (hp : srv.sessions[i]? = some p)
      (hwaiting : p.Waiting)
      : Steps E srv a (srv.store i (srv.machine p a.2).freed)

structure Ordered (E : Env κ) (srv : UdpServer) : Prop where
  running : srv.crashed = false
  serves : srv.conn.proto.Serves E
  session : ∀ p ∈ srv.sessions, p.Waiting ∨ p.Over

variable {E : Env κ} {srv srv' : UdpServer}

theorem exec_eq {i : Nat} {p : Session} (hp : srv.sessions[i]? = some p) {x : Proc Unit} {inp : Inputs}
    {Q : Unit → Machine → Prop} {F : Fault → Machine → Prop} (h : wp x Q F (srv.machine p inp))
    : (∃ m, Q () m ∧ srv.exec i x inp = srv.store i m)
        ∨ ∃ f m, F f m ∧ srv.exec i x inp = (srv.store i m).fault f := by
  rw [wp] at h
  rw [exec, hp]
  dsimp only
  split at h
  . next m heq =>
    rw [heq]
    exact .inl ⟨m, h, rfl⟩
  . next f m heq =>
    rw [heq]
    exact .inr ⟨f, m, h, rfl⟩

theorem store_length (m : Machine)
    : { srv with sessions := srv.sessions ++ [Session.new] }.store srv.sessions.length m = srv.add m := by
  simp [store, add, Machine.session]

theorem Ordered.steps (hI : E.inet.Lawful) (h : srv.Ordered E) (a : Event × Inputs)
    : srv.Steps E a (srv.step E a) := by
  have hwaiting : ∀ {i : Nat} {p : Session}, srv.sessions[i]? = some p → ¬p.Over → p.Waiting :=
    fun hp hover => (h.session _ (List.mem_of_getElem? hp)).resolve_right hover
  unfold step
  rw [if_neg (by simp [h.running])]
  split
  . next ha =>
    let srv₁ := { srv with sessions := srv.sessions ++ [Session.new] }
    have hp : srv₁.sessions[srv.sessions.length]? = some Session.new := by simp [srv₁]
    have hserved : wp (udpServerOnRead E) (fun _ => (srv.machine .new a.2).Served E)
        ((srv.machine .new a.2).Mishap E) (srv₁.machine .new a.2) := wp_udpServerOnRead hI h.serves rfl
    rcases exec_eq hp hserved with ⟨m, hm, heq⟩ | ⟨f, m, ⟨rfl, hm⟩, heq⟩
    . rw [heq, store_length]
      exact .request ha hm
    . rw [heq, store_length]
      exact .mishap ha hm
  . next i ha =>
    split
    . next hnone => exact .idle (by simp [ha, Enabled, hnone])
    . next p hp =>
      split
      . next hlive =>
        have hp' := hwaiting hp fun hover => by simp [hover.conn] at hlive
        have hlinked : (srv.machine p a.2).Linked := ⟨hp'.client, hp'.remote, hp'.conn⟩
        rcases exec_eq hp (wp_udpConnReadHandler (F := fun _ _ => False) hlinked) with ⟨m, hm, heq⟩ | ⟨f, m, hm, -⟩
        . rw [heq]
          exact .reply ha hp hp' hm
        . exact hm.elim
      . next hlive => exact .idle (by simp [ha, Enabled, hp, hlive])
  . next i ha =>
    split
    . next hnone => exact .idle (by simp [ha, Enabled, hnone])
    . next p hp =>
      split
      . next htimer =>
        have hp' := hwaiting hp fun hover => by simp [hover.timer] at htimer
        have hlinked : (srv.machine p a.2).Linked := ⟨hp'.client, hp'.remote, hp'.conn⟩
        rcases exec_eq hp (wp_udpConnTimeoutHandler (F := fun _ _ => False) hlinked) with ⟨m, rfl, heq⟩ | ⟨f, m, hm, -⟩
        . rw [heq]
          exact .timeout ha hp hp'
        . exact hm.elim
      . next htimer => exact .idle (by simp [ha, Enabled, hp, htimer])

theorem mem_add {m : Machine} {p : Session} (h : p ∈ (srv.add m).sessions) : p ∈ srv.sessions ∨ p = m.session := by
  simpa [add] using h

theorem mem_store {i : Nat} {m : Machine} {p : Session} (h : p ∈ (srv.store i m).sessions)
    : p ∈ srv.sessions ∨ p = m.session :=
  List.mem_or_eq_of_mem_set h

theorem ordered_new : Ordered E (.new E) where
  running := rfl
  serves := by
    unfold Proto.Serves new App.serverType
    cases E.app <;> simp [UdpConn.new]
  session := by simp [new]

theorem Ordered.add (h : srv.Ordered E) {m : Machine} (hserves : m.server.proto.Serves E)
    (hsession : m.session.Waiting ∨ m.session.Over)
    : (srv.add m).Ordered E where
  running := h.running
  serves := hserves
  session p hp := by
    rcases mem_add hp with hp | rfl
    . exact h.session p hp
    . exact hsession

theorem Ordered.store (h : srv.Ordered E) {m : Machine} (hserver : m.server = srv.conn)
    (hover : m.session.Over) (i : Nat)
    : (srv.store i m).Ordered E where
  running := h.running
  serves := by
    show m.server.proto.Serves E
    rw [hserver]
    exact h.serves
  session p hp := by
    rcases mem_store hp with hp | rfl
    . exact h.session p hp
    . exact .inr hover

theorem Ordered.next (h : srv.Ordered E) {a : Event × Inputs} (hstep : srv.Steps E a srv') : srv'.Ordered E := by
  cases hstep with
  | idle => exact h
  | request ha hm => exact h.add (hm.serves h.serves) (hm.waiting_or_over rfl)
  | mishap ha hm =>
    have hadd := h.add (hm.serves h.serves) (.inr hm.over)
    exact ⟨by simp [fault, hadd.running], hadd.serves, hadd.session⟩
  | reply ha hp hwaiting hm => exact h.store hm.server (hm.over hwaiting.lost) _
  | timeout ha hp hwaiting => exact h.store rfl (Machine.over_freed hwaiting.lost) _

end UdpServer

def requestFor (host : Byte) (port : Nat) : Event × Inputs :=
  (.request, {
    recv := .datagram (.inet .inet [10, 0, 0, 1] port) [1, 127, 0, 0, host, 0, 80, 9]
    getaddrinfo := fun _ _ => some [.inet .inet [127, 0, 0, host] 80]
    uninit := .zero
  })

def replyTo (i : Nat) : Event × Inputs :=
  (.reply i, { recv := .datagram (.inet .inet [127, 0, 0, 1] 80) [7], uninit := .zero })

end Xsocks.Udp
