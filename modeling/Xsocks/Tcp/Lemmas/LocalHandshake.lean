import Xsocks.Tcp.Lemmas.Handshake
import Xsocks.Tcp.Lemmas.Socks5

/-!
This module contains runs of xs-local on a stream of a SOCKS5 client: the two messages of the handshake
and then data, which reach it in parts.
-/

namespace Xsocks

open Wp Run

variable {κ : Type}

structure MethodSelection (A : List Byte) : Prop where
  exists_methods : ∃ nmethods methods, A = SVERSION :: nmethods :: methods
    ∧ nmethods.toNat = methods.length ∧ METHOD_NOAUTH ∈ methods

structure ConnectRequest (I : Inet) (R : List Byte) (addr : Socks5Addr) : Prop where
  exists_address : ∃ rsv dest, R = SVERSION :: SOCKS5_CMD_CONNECT :: rsv :: dest
    ∧ parseAddr I dest = some addr ∧ addr.consumed = dest.length

theorem authAccepted_iff {A S r : List Byte} (hA : MethodSelection A) (hAS : A <+: S) (hr : r <+: S)
    : authAccepted r = true ↔ A.length ≤ r.length := by
  obtain ⟨nmethods, methods, rfl, hlen, hmem⟩ := hA.exists_methods
  obtain ⟨T, rfl⟩ := hAS
  rcases r with _ | ⟨b, _ | ⟨b', r⟩⟩
  . simp [authAccepted, socks5AuthReq]
    omega
  . simp [authAccepted, socks5AuthReq]
    omega
  . simp only [List.cons_append, List.cons_prefix_cons] at hr
    obtain ⟨rfl, rfl, hr⟩ := hr
    have h0 : Mem.ofList 0 (SVERSION :: b' :: r) 0 = SVERSION := rfl
    have h1 : Mem.ofList 0 (SVERSION :: b' :: r) 1 = b' := rfl
    unfold authAccepted socks5AuthReq
    rw [h0, h1, hlen]
    simp only [List.length_cons]
    split
    . next hlt =>
      rw [or_iff_left (by simp)] at hlt
      simp only [Bool.false_eq_true, false_iff]
      omega
    . next hge =>
      rw [not_or] at hge
      -- The message is at the start of what was read.
      obtain ⟨x, rfl⟩ := List.prefix_of_prefix_length_le (List.prefix_append methods T) hr (by omega)
      have hread := Mem.read_ofList_append 0 [SVERSION, b'] methods x
      simp only [List.length_cons, List.length_nil, List.cons_append, List.nil_append] at hread
      rw [hread]
      simpa using hmem

theorem requested_of_parseAddr {I : Inet} {rsv : Byte} {dest : List Byte} {addr : Socks5Addr}
    (h : parseAddr I dest = some addr)
    : requested I (SVERSION :: SOCKS5_CMD_CONNECT :: rsv :: dest) = some addr := by
  have hparsed := parsed_of_parseAddr h
  have hpos := hparsed.consumed_pos
  have hle := hparsed.consumed_le
  have h0 : Mem.ofList 0 (SVERSION :: SOCKS5_CMD_CONNECT :: rsv :: dest) 0 = SVERSION := rfl
  have h1 : Mem.ofList 0 (SVERSION :: SOCKS5_CMD_CONNECT :: rsv :: dest) 1 = SOCKS5_CMD_CONNECT := rfl
  unfold requested socks5Req
  rw [h0, h1]
  simp only [List.length_cons]
  rw [if_neg (by rw [not_or]; exact ⟨by omega, by simp⟩), if_neg (by simp)]
  have hcast : ((dest.length + 1 + 1 + 1 : Nat) : Int) - 4 + 1 = dest.length := by omega
  rw [hcast, socks5AddrParse_eq dest, h]
  have hread := Mem.read_ofList_append 0 [SVERSION, SOCKS5_CMD_CONNECT, rsv] dest []
  simpa using hread

theorem requested_request {I : Inet} {R : List Byte} {addr : Socks5Addr}
    (hR : ConnectRequest I R addr)
    : requested I R = some addr := by
  obtain ⟨rsv, dest, rfl, hparse, -⟩ := hR.exists_address
  exact requested_of_parseAddr hparse

theorem parseAddr_of_requested {I : Inet} {r : List Byte} {addr : Socks5Addr}
    (h : requested I r = some addr)
    : parseAddr I (r.drop 3) = some addr := by
  unfold requested socks5Req at h
  dsimp only at h
  split at h
  . contradiction
  . next hlen =>
    rw [not_or] at hlen
    split at h
    . contradiction
    . have hcast : (r.length : Int) - 4 + 1 = (r.drop 3).length := by
        rw [List.length_drop]
        omega
      rw [hcast, socks5AddrParse_eq] at h
      . exact h
      . have hread := Mem.read_ofList_append 0 (r.take 3) (r.drop 3) []
        rw [List.append_nil, List.take_append_drop, List.length_take, Nat.min_eq_left (by omega)] at hread
        simpa using hread

namespace Local

structure Greeting (m : Machine κ) (c : TcpSocks5) : Prop where
  alive : m.Alive
  remote : m.remote = false
  absent : (m.conn .remote).Gone
  proto : (m.conn .client).proto = .socks5 c
  flags : c.flags = .SERVER
  connected : (m.conn .client).connected = true
  re : (m.conn .client).re = true
  rbufLen : (m.conn .client).rbufLen = NET_IOBUF_LEN
  rbufOff : (m.conn .client).rbufOff = 0
  unpiped : .pipe .client .remote ∉ m.trace

theorem Greeting.withInp {m : Machine κ} {c : TcpSocks5} (h : Greeting m c) (inp : Inputs κ)
    : Greeting (m.withInp inp) c :=
  ⟨by simpa using h.alive, h.remote, h.absent, h.proto, h.flags, h.connected, h.re, h.rbufLen,
    h.rbufOff, h.unpiped⟩

section

variable {m : Machine κ} {F : Fault → Machine κ → Prop} {E : Env κ} {c : TcpSocks5} {r : List Byte}
  {room : Nat}

theorem wp_handler (happ : E.app = .xsLocal) (hm : m.Usable .client)
    (hconn : (m.conn .client).connected = true) (Q : Unit → Machine κ → Prop)
    : wp (handler E .client .read) Q F m ↔ wp (Local.tcpClientOnRead E) Q F m := by
  rw [handler, wp_tcpConnReadHandler hm hconn, wp_fireRead_client hm, Xsocks.tcpClientOnRead, happ]

def replying (m : Machine κ) (r : List Byte) : Machine κ :=
  (m.received .client 0 r).restarted .client

theorem Greeting.received (h : Greeting m c) (r : List Byte) : Greeting (replying m r) c := by
  constructor
  case alive => simpa [replying] using h.alive
  case remote => exact h.remote
  case absent => simpa [replying, Machine.restarted, Machine.received] using h.absent
  case flags => exact h.flags
  case unpiped => simpa [replying, Machine.restarted, Machine.received] using h.unpiped
  all_goals
    simp [replying, Machine.restarted, Machine.received, h.proto, h.connected, h.re, h.rbufLen,
      h.rbufOff]

theorem Greeting.setSocks5 (h : Greeting m c) {c' : TcpSocks5} (hflags : c'.flags = .SERVER)
    : Greeting (m.setSocks5 .client c') c' := by
  constructor
  case alive => simpa using h.alive
  case remote => exact h.remote
  case absent => simpa [Machine.setSocks5] using h.absent
  case flags => exact hflags
  case unpiped => exact h.unpiped
  all_goals simp [Machine.setSocks5, h.connected, h.re, h.rbufLen, h.rbufOff]

theorem Greeting.sent (h : Greeting m c) (bufLen : Int) (data : List Byte)
    : Greeting ((m.log (.write .client bufLen)).sent .client data) c :=
  ⟨by simpa using h.alive, h.remote, h.absent, h.proto, h.flags, h.connected, h.re, h.rbufLen,
    h.rbufOff, by simpa [Machine.sent] using h.unpiped⟩

def accepts (E : Env κ) (c : TcpSocks5) (r : List Byte) : Bool :=
  match c.state with
  | .INIT => authAccepted r
  | .HANDSHAKE => (requested E.inet r).isSome
  | .STREAM => false

def reply (c : TcpSocks5) : List Byte × Socks5State :=
  if c.state = .INIT then (authResp, .HANDSHAKE) else (socks5Resp, .STREAM)

theorem wp_connWrite_reply (h : Greeting m c) (hstate : c.state ≠ .STREAM)
    (hwrites : m.inp.writes.headD [] = [.count room]) (hroom : 10 ≤ room) (buf : List Byte)
    (bufLen : Int) {Q : Int → Machine κ → Prop}
    (hQ : ∀ n m', Greeting m' { c with state := (reply c).2 } → Q n m')
    : wp (connWrite E .client buf bufLen) Q F m := by
  have hreply : (reply c).1.length ≤ room := by
    unfold reply
    split
    . exact Nat.le_trans (by decide) hroom
    . exact Nat.le_trans (by decide) hroom
  have hproto : ((m.log (.write .client bufLen)).conn .client).proto = .socks5 c := h.proto
  rw [connWrite, wp_bind, wp_deref h.alive.client, wp_bind, wp_logIo, h.proto]
  dsimp only
  rw [tcpSocks5ConnWrite, wp_bind, wp_derefSocks5 (by simpa using h.alive.client) hproto, h.flags,
    if_neg (by simp)]
  have hwp : wp (tcpSocks5ConnWrite.reply .client (reply c).1 (reply c).2) Q F
      (m.log (.write .client bufLen)) := by
    rw [wp_reply_all (by simpa using h.alive) (by simpa using h.alive.client) hproto hwrites hreply]
    exact hQ _ _ ((h.sent _ _).setSocks5 h.flags)
  unfold reply at hwp
  cases hc : c.state with
  | INIT => simpa [hc] using hwp
  | HANDSHAKE => simpa [hc] using hwp
  | STREAM => contradiction

def answer (E : Env κ) (nread : Int) : Proc κ Unit :=
  if 0 < nread then do
    let c ← deref .client
    let _ ← connWrite E .client (c.rbuf.read 0 nread.toNat) nread
  else pure ()

theorem wp_answer (h : Greeting m c) (hstate : c.state ≠ .STREAM)
    (hwrites : m.inp.writes.headD [] = [.count room]) (hroom : 10 ≤ room) {nread : Int}
    (hpos : 0 < nread) {Q : Unit → Machine κ → Prop}
    (hQ : ∀ m', Greeting m' { c with state := (reply c).2 } → Q () m')
    : wp (answer E nread) Q F m := by
  rw [answer, if_pos hpos, wp_bind, wp_deref h.alive.client, wp_bind]
  apply wp_connWrite_reply h hstate hwrites hroom
  intro n m' hm'
  exact hQ m' hm'

theorem Greeting.wp_read (happ : E.app = .xsLocal) (h : Greeting m c) (hstate : c.state ≠ .STREAM)
    (Q : Unit → Machine κ → Prop)
    : wp (handler E .client .read) Q F m
        ↔ wp (tcpSocks5ConnRead E .client 0 NET_IOBUF_LEN) (fun nread => wp (answer E nread) Q F) F m := by
  have hclient := h.alive.client
  rw [wp_handler happ hclient h.connected, Local.tcpClientOnRead, wp_bind, wp_deref hclient, wp_bind,
    wp_derefSocks5 hclient h.proto, if_pos hstate, wp_bind, h.rbufLen, connRead, wp_bind,
    wp_deref hclient, h.proto]
  rfl

theorem wp_message (happ : E.app = .xsLocal) (h : Greeting m c) (hstate : c.state ≠ .STREAM)
    (hr : r ≠ []) (hread : m.netRead NET_IOBUF_LEN = ⟨r.length, false, r⟩)
    (Q : Unit → Machine κ → Prop)
    : wp (handler E .client .read) Q F m
        ↔ MessagePost E .client c r (fun nread => wp (answer E nread) Q F) (replying m r) := by
  have hpos : 0 < r.length := List.length_pos_iff.mpr hr
  rw [h.wp_read happ hstate, wp_tcpSocks5ConnRead h.alive h.alive.client h.proto h.flags, hread]
  dsimp only
  rw [if_neg (by rw [ERR]; omega), if_neg (by simp), if_neg (by omega)]
  rfl

variable {inp : Inputs κ} {uninit : Uninit}

variable (inp uninit) in
theorem pairStep_auth (happ : E.app = .xsLocal) (h : Greeting m c) (hstate : c.state = .INIT)
    (hr : r ≠ []) (hlen : r.length ≤ NET_IOBUF_LEN) (hroom : 10 ≤ room) (hauth : authAccepted r = true)
    : ∃ m', pairStep E m ((.client, .read), arrival inp uninit room r) = .ok m'
        ∧ Greeting m' { c with state := .HANDSHAKE } := by
  have hinp := h.withInp (arrival inp uninit room r)
  have hpos : 0 < r.length := List.length_pos_iff.mpr hr
  apply pairStep_ok (by simp [TcpConn.registered, h.re])
  rw [wp_message happ hinp (by simp [hstate]) hr (netRead_arrival m inp uninit room hr hlen),
    MessagePost, hstate]
  dsimp only
  rw [if_pos hauth]
  apply wp_answer (hinp.received r) (by simp [hstate]) rfl hroom (by omega)
  intro m' hm'
  simpa [reply, hstate] using hm'

theorem pairStep_auth_incomplete (happ : E.app = .xsLocal) (h : Greeting m c) (hstate : c.state = .INIT)
    (hr : r ≠ []) (hlen : r.length ≤ NET_IOBUF_LEN) (hauth : authAccepted r = false) {m' : Machine κ}
    (heq : pairStep E m ((.client, .read), arrival inp uninit room r) = .ok m')
    : m'.Dead := by
  have hinp := h.withInp (arrival inp uninit room r)
  apply post_of_pairStep (by simp [TcpConn.registered, h.re]) _ heq
  rw [wp_message happ hinp (by simp [hstate]) hr (netRead_arrival m inp uninit room hr hlen),
    MessagePost, hstate]
  dsimp only
  rw [if_neg (by simp [hauth]), answer, if_neg (by simp [ERR]), wp_pure]
  apply Machine.dead_closed
  intro _
  simpa [Machine.withErr] using (hinp.received r).absent

variable (inp uninit) in
theorem pairStep_request (happ : E.app = .xsLocal) (h : Greeting m c) (hstate : c.state = .HANDSHAKE)
    (hr : r ≠ []) (hlen : r.length ≤ NET_IOBUF_LEN) (hroom : 10 ≤ room) {addr : Socks5Addr}
    (haddr : requested E.inet r = some addr)
    : ∃ m', pairStep E m ((.client, .read), arrival inp uninit room r) = .ok m'
        ∧ Greeting m' ⟨.SERVER, .STREAM,
            .created (encodeAddr E.inet uninit (.ofBuf addr.host) addr.port)⟩ := by
  have hinp := h.withInp (arrival inp uninit room r)
  have hpos : 0 < r.length := List.length_pos_iff.mpr hr
  apply pairStep_ok (by simp [TcpConn.registered, h.re])
  rw [wp_message happ hinp (by simp [hstate]) hr (netRead_arrival m inp uninit room hr hlen),
    MessagePost, hstate]
  dsimp only
  rw [haddr]
  dsimp only
  have hset := fun dest => (hinp.received r).setSocks5 (show (⟨c.flags, .HANDSHAKE, dest⟩ : TcpSocks5).flags
    = .SERVER from h.flags)
  apply wp_answer (hset _) (by simp) rfl hroom (by omega)
  intro m' hm'
  rw [h.flags] at hm'
  exact hm'

theorem pairStep_request_incomplete (happ : E.app = .xsLocal) (h : Greeting m c)
    (hstate : c.state = .HANDSHAKE) (hr : r ≠ []) (hlen : r.length ≤ NET_IOBUF_LEN)
    (haddr : requested E.inet r = none) {m' : Machine κ}
    (heq : pairStep E m ((.client, .read), arrival inp uninit room r) = .ok m')
    : m'.Dead := by
  have hinp := h.withInp (arrival inp uninit room r)
  apply post_of_pairStep (by simp [TcpConn.registered, h.re]) _ heq
  rw [wp_message happ hinp (by simp [hstate]) hr (netRead_arrival m inp uninit room hr hlen),
    MessagePost, hstate]
  dsimp only
  rw [haddr]
  dsimp only
  rw [answer, if_neg (by simp [ERR]), wp_pure]
  apply Machine.dead_closed
  intro _
  simpa [Machine.withErr] using (hinp.received r).absent

theorem greeting_accepted (E : Env κ) (inp : Inputs κ)
    : Greeting (.accepted E .SOCKS5 inp) ⟨.SERVER, .INIT, .pointer inp.tail⟩ :=
  ⟨Machine.alive_accepted E _ _, rfl, ⟨rfl, rfl, rfl, rfl⟩, rfl, rfl, rfl, rfl, rfl, rfl, by
    simp [Machine.accepted]⟩

end

end Local

end Xsocks
