import Xsocks.Core.Lemmas.Resolve
import Xsocks.Lib.Wp
import Xsocks.Protocol.Lemmas.Socks5
import Xsocks.Udp.Impl.App

/-!
This module contains the states in which the functions of the UDP relay leave a client and its remote.
-/

namespace Xsocks.Udp

open Wp

variable {κ : Type}

namespace Machine

def Usable (m : Machine) (s : Side) : Prop :=
  s = .remote → m.client.remote = true ∧ m.client.conn.live = true

structure Linked (m : Machine) : Prop where
  client : m.client.live = true
  remote : m.client.remote = true
  conn : m.client.conn.live = true

structure Alone (m : Machine) : Prop where
  client : m.client.live = true
  remote : m.client.remote = false

def freed (m : Machine) : Machine :=
  { m with
      remoteCount := m.remoteCount - 1
      client := { m.client with live := false, conn := m.client.conn.close }
      trace := m.trace ++ [.remoteFree, .clientFree] }

def dropped (m : Machine) : Machine :=
  { m with client := { m.client with live := false }, trace := m.trace ++ [.clientFree] }

def closed (m : Machine) : Side → Machine
  | .server => m
  | .remote => m.freed

def stopped (m : Machine) (s : Side) : Machine :=
  m.upd s fun c => { c with timer := c.timer.del }

def got (m : Machine) (s : Side) (sa : SockAddr) (data : List Byte) : Machine :=
  ((m.stopped s).log (.recv s sa data)).sender s sa

def received (m : Machine) (s : Side) (sa : SockAddr) (data : List Byte) : Machine :=
  (m.got s sa data).upd s fun c => { c with timer := c.timer.add }

variable {m : Machine} {s t : Side}

theorem linked_stopped : (m.stopped s).Linked ↔ m.Linked := by
  cases s <;> exact ⟨fun h => ⟨h.client, h.remote, h.conn⟩, fun h => ⟨h.client, h.remote, h.conn⟩⟩

theorem linked_got {sa : SockAddr} {data : List Byte} : (m.got s sa data).Linked ↔ m.Linked := by
  cases s <;> exact ⟨fun h => ⟨h.client, h.remote, h.conn⟩, fun h => ⟨h.client, h.remote, h.conn⟩⟩

theorem linked_received {sa : SockAddr} {data : List Byte} : (m.received s sa data).Linked ↔ m.Linked := by
  cases s <;> exact ⟨fun h => ⟨h.client, h.remote, h.conn⟩, fun h => ⟨h.client, h.remote, h.conn⟩⟩

@[simp]
theorem trace_stopped : (m.stopped s).trace = m.trace := by
  cases s <;> rfl

@[simp]
theorem trace_got {sa : SockAddr} {data : List Byte}
    : (m.got s sa data).trace = m.trace ++ [.recv s sa data] := by
  cases s <;> rfl

@[simp]
theorem trace_received {sa : SockAddr} {data : List Byte}
    : (m.received s sa data).trace = m.trace ++ [.recv s sa data] := by
  cases s <;> rfl

@[simp]
theorem trace_freed : m.freed.trace = m.trace ++ [.remoteFree, .clientFree] :=
  rfl

@[simp]
theorem trace_dropped : m.dropped.trace = m.trace ++ [.clientFree] :=
  rfl

@[simp]
theorem trace_log {io : Io} : (m.log io).trace = m.trace ++ [io] :=
  rfl

theorem Linked.usable (h : m.Linked) (s : Side) : m.Usable s :=
  fun _ => ⟨h.remote, h.conn⟩

theorem usable_server : m.Usable .server := by
  intro h
  contradiction

end Machine

section

variable {m : Machine} {s : Side} {F : Fault → Machine → Prop} {E : Env κ}

@[simp]
theorem wp_logIo (io : Io) (Q : Unit → Machine → Prop) : wp (logIo io) Q F m ↔ Q () (m.log io) := by
  rfl

theorem wp_derefClient (h : m.client.live = true) (Q : UdpClient → Machine → Prop)
    : wp derefClient Q F m ↔ Q m.client m := by
  simp [derefClient, h]

theorem wp_deref (h : m.Usable s) (Q : UdpConn → Machine → Prop) : wp (deref s) Q F m ↔ Q (m.conn s) m := by
  cases s with
  | server => rfl
  | remote =>
    obtain ⟨hremote, hlive⟩ := h rfl
    simp [deref, hremote, hlive, Machine.conn]

theorem wp_assign (h : m.Usable s) (f : UdpConn → UdpConn) (Q : Unit → Machine → Prop)
    : wp (assign s f) Q F m ↔ Q () (m.upd s f) := by
  rw [assign, wp_bind, wp_deref h, wp_modify]

theorem wp_udpConnectionFree (h : m.Linked) (Q : Unit → Machine → Prop)
    : wp udpConnectionFree Q F m ↔ Q () m.freed := by
  have hremote : ({ m with remoteCount := m.remoteCount - 1 }.log .remoteFree).Usable .remote :=
    fun _ => ⟨h.remote, h.conn⟩
  rw [udpConnectionFree, wp_bind, wp_derefClient h.client, if_pos h.remote, wp_bind, wp_modify, wp_bind,
    udpRemoteFree, wp_bind, wp_get, if_pos h.remote, wp_bind, wp_logIo, wp_assign hremote, udpClientFree,
    wp_bind, wp_logIo, wp_modify]
  simp [Machine.freed, Machine.log, Machine.upd, Machine.updClient]

theorem wp_udpConnectionFree_alone (h : m.Alone) (Q : Unit → Machine → Prop)
    : wp udpConnectionFree Q F m ↔ Q () m.dropped := by
  have hremote : ¬m.client.remote = true := by simp [h.remote]
  rw [udpConnectionFree, wp_bind, wp_derefClient h.client, if_neg hremote]
  simp only [udpRemoteFree, wp_bind, wp_get, if_neg hremote, wp_pure, udpClientFree, wp_logIo, wp_modify]
  rfl

theorem wp_fireClose (h : s = .remote → m.Linked) (Q : Unit → Machine → Prop)
    : wp (fireClose s) Q F m ↔ Q () (m.closed s) := by
  cases s with
  | server => rfl
  | remote =>
    have h := h rfl
    rw [fireClose, wp_bind, wp_deref (h.usable _), udpRemoteOnClose, wp_bind, wp_deref (h.usable _),
      wp_udpConnectionFree h]
    rfl

theorem wp_failed {α : Type} (h : s = .remote → m.Linked) (Q : Option α → Machine → Prop)
    : wp (failed s) Q F m ↔ Q none (m.closed s) := by
  have hs : m.Usable s := fun hs => (h hs).usable s hs
  rw [failed, wp_bind]
  unfold fireError
  rw [wp_bind, wp_deref hs]
  cases s with
  | server => rw [wp_pure, wp_bind, wp_fireClose h, wp_pure]
  | remote => rw [udpRemoteOnError, wp_bind, wp_deref hs, wp_pure, wp_bind, wp_fireClose h, wp_pure]

theorem wp_udpRead (h : s = .remote → m.Linked) (bufLen : Nat) (Q : Option (List Byte) → Machine → Prop)
    : wp (udpRead s bufLen) Q F m
        ↔
      match netUdpRead bufLen m.inp.recv with
      | none => Q none ((m.stopped s).closed s)
      | some (sa, data) =>
        if data = [] then Q none ((m.got s sa data).closed s) else Q (some data) (m.received s sa data) := by
  have hs : m.Usable s := fun hs => (h hs).usable s hs
  rw [udpRead, wp_bind, wp_assign hs, wp_bind, wp_get, ← Machine.stopped]
  have hinp : (m.stopped s).inp = m.inp := by
    cases s <;> rfl
  rw [hinp]
  cases netUdpRead bufLen m.inp.recv with
  | none => exact wp_failed (fun hs => Machine.linked_stopped.mpr (h hs)) Q
  | some p =>
    obtain ⟨sa, data⟩ := p
    have hgot : s = .remote → (m.got s sa data).Linked := fun hs => Machine.linked_got.mpr (h hs)
    dsimp only
    rw [wp_bind, wp_logIo, wp_bind, wp_modify, ← Machine.got]
    split
    . rw [wp_bind, wp_fireClose hgot, wp_pure]
    . rw [wp_bind, wp_assign fun hs => (hgot hs).usable s hs, wp_pure, Machine.received]

theorem wp_udpWrite (h : s = .remote → m.Linked) (buf : List Byte) (sa : SockAddr)
    (Q : Option Nat → Machine → Prop)
    : wp (udpWrite s buf sa) Q F m
        ↔ if m.inp.sendto = false then Q none (m.closed s) else Q (some buf.length) (m.log (.send s sa buf)) := by
  have hs : m.Usable s := fun hs => (h hs).usable s hs
  rw [udpWrite, wp_bind, wp_deref hs, wp_bind, wp_get]
  split
  . exact wp_failed h Q
  . rw [wp_bind, wp_logIo, wp_pure]

end

namespace Proto

def wrap (E : Env κ) (nonce : List Byte) (buf : List Byte) : Proto → Option (List Byte)
  | raw => some buf
  | shadowsocks addrbufDest => E.crypto.encryptAll nonce (addrbufDest ++ buf)

def unwrap (E : Env κ) (uninit : Uninit) (data : List Byte) : Proto → Option (List Byte × Proto)
  | raw => some (data, raw)
  | shadowsocks _ =>
    match E.crypto.decryptAll data with
    | none => none
    | some buf =>
      match parseAddr E.inet buf with
      | none => none
      | some addr =>
        some (buf.drop addr.consumed, shadowsocks (encodeAddr E.inet uninit (.ofBuf addr.host) addr.port))

theorem unwrap_shadowsocks {E : Env κ} {uninit : Uninit} {data addrbufDest buf : List Byte} {proto : Proto}
    (h : (shadowsocks addrbufDest).unwrap E uninit data = some (buf, proto))
    : ∃ P addr, E.crypto.decryptAll data = some P ∧ parseAddr E.inet P = some addr
        ∧ buf = P.drop addr.consumed
        ∧ proto = shadowsocks (encodeAddr E.inet uninit (.ofBuf addr.host) addr.port) := by
  rw [unwrap] at h
  cases hP : E.crypto.decryptAll data with
  | none => simp [hP] at h
  | some P =>
    cases haddr : parseAddr E.inet P with
    | none => simp [hP, haddr] at h
    | some addr =>
      simp only [hP, haddr, Option.some.injEq, Prod.mk.injEq] at h
      exact ⟨P, addr, rfl, haddr, h.1.symm, h.2.symm⟩

end Proto

namespace Machine

def withProto (m : Machine) (s : Side) (proto : Proto) : Machine :=
  m.upd s fun c => { c with proto := proto }

def bound (m : Machine) (E : Env κ) (type : ConnType) (sa : SockAddr) : Machine :=
  { m with
      remoteCount := m.remoteCount + 1
      client := { m.client with remote := true, conn := .new type E.timeout, saRemote := sa } }

def orphaned (m : Machine) (E : Env κ) (type : ConnType) : Machine :=
  { m with
      client := { m.client with remote := true, conn := (UdpConn.new type E.timeout).close }
      trace := m.trace ++ [.remoteFree] }

variable {m : Machine} {s : Side}

theorem withProto_self {proto : Proto} (h : (m.conn s).proto = proto) : m.withProto s proto = m := by
  subst h
  cases s <;> rfl

theorem linked_withProto {proto : Proto} : (m.withProto s proto).Linked ↔ m.Linked := by
  cases s <;> exact ⟨fun h => ⟨h.client, h.remote, h.conn⟩, fun h => ⟨h.client, h.remote, h.conn⟩⟩

@[simp]
theorem trace_withProto {proto : Proto} : (m.withProto s proto).trace = m.trace := by
  cases s <;> rfl

theorem linked_bound {E : Env κ} {type : ConnType} {sa : SockAddr} (h : m.client.live = true)
    : (m.bound E type sa).Linked :=
  ⟨h, rfl, rfl⟩

end Machine

section

variable {m : Machine} {s : Side} {F : Fault → Machine → Prop} {E : Env κ}

theorem wp_udpShadowsocksConnInit (hs : m.Usable s) (host : CString) (port : Nat)
    (Q : Unit → Machine → Prop)
    : wp (udpShadowsocksConnInit E s host port) Q F m
        ↔ Q () (m.withProto s (.shadowsocks (encodeAddr E.inet m.inp.uninit host port))) := by
  rw [udpShadowsocksConnInit, wp_bind, wp_get, socks5AddrInit_eq, wp_assign hs]
  rfl

theorem wp_connRead (h : s = .remote → m.Linked) (Q : Option (List Byte) → Machine → Prop)
    : wp (connRead E s) Q F m
        ↔
      match netUdpRead NET_IOBUF_LEN m.inp.recv with
      | none => Q none ((m.stopped s).closed s)
      | some (sa, data) =>
        if data = [] then Q none ((m.got s sa data).closed s)
        else
          match (m.conn s).proto.unwrap E m.inp.uninit data with
          | none => Q none ((m.received s sa data).closed s)
          | some (buf, proto) => Q (some buf) ((m.received s sa data).withProto s proto) := by
  have hs : m.Usable s := fun hs => (h hs).usable s hs
  have hproto : ∀ sa data, ((m.received s sa data).conn s).proto = (m.conn s).proto := by
    intro sa data
    cases s <;> rfl
  have hinp : ∀ sa data, (m.received s sa data).inp = m.inp := by
    intro sa data
    cases s <;> rfl
  rw [connRead, wp_bind, wp_deref hs]
  cases hc : (m.conn s).proto with
  | raw =>
    dsimp only
    rw [wp_udpRead h]
    split
    . rfl
    . next sa data heq =>
      rw [Proto.unwrap]
      dsimp only
      rw [Machine.withProto_self ((hproto sa data).trans hc)]
  | shadowsocks addrbufDest =>
    dsimp only
    rw [udpShadowsocksConnRead, wp_bind, wp_udpRead h]
    split
    . rfl
    . next sa data heq =>
      have hreceived : s = .remote → (m.received s sa data).Linked :=
        fun hs => Machine.linked_received.mpr (h hs)
      split
      . rfl
      . rw [Proto.unwrap]
        dsimp only
        cases E.crypto.decryptAll data with
        | none => exact wp_failed hreceived Q
        | some buf =>
          dsimp only
          rw [← parseAddr]
          cases parseAddr E.inet buf with
          | none => exact wp_failed hreceived Q
          | some addr =>
            dsimp only
            rw [wp_bind, wp_udpShadowsocksConnInit fun hs => (hreceived hs).usable s hs, wp_pure, hinp]

theorem wp_connWrite (h : s = .remote → m.Linked) (buf : List Byte) (sa : SockAddr)
    (Q : Option Nat → Machine → Prop)
    : wp (connWrite E s buf sa) Q F m
        ↔
      match (m.conn s).proto.wrap E m.inp.nonce buf with
      | none => Q none (m.closed s)
      | some data =>
        if m.inp.sendto = false then Q none (m.closed s)
        else Q (some data.length) (m.log (.send s sa data)) := by
  have hs : m.Usable s := fun hs => (h hs).usable s hs
  rw [connWrite, wp_bind, wp_deref hs]
  cases (m.conn s).proto with
  | raw => exact wp_udpWrite h buf sa Q
  | shadowsocks addrbufDest =>
    dsimp only
    rw [udpShadowsocksConnWrite, wp_bind, wp_get, Proto.wrap]
    cases E.crypto.encryptAll m.inp.nonce (addrbufDest ++ buf) with
    | none => exact wp_failed h Q
    | some data => exact wp_udpWrite h data sa Q

theorem wp_udpRemoteNew (h : m.client.live = true) (type : ConnType) (host : CString) (port : Nat)
    (Q : Bool → Machine → Prop)
    : wp (udpRemoteNew E type host port) Q F m
        ↔
      if m.inp.create = false then Q false m
      else
        match netUdpGetSockAddrEx E.ipv6First (m.inp.getaddrinfo host port) m.client.saRemote with
        | none => Q false (m.orphaned E type)
        | some sa => Q true (m.bound E type sa) := by
  rw [udpRemoteNew, wp_bind, wp_derefClient h, wp_bind, wp_get]
  split
  . rfl
  . rw [wp_bind, wp_modify]
    cases netUdpGetSockAddrEx E.ipv6First (m.inp.getaddrinfo host port) m.client.saRemote with
    | none =>
      have hs : ((m.updClient fun c => { c with remote := true, conn := .new type E.timeout }).log
          .remoteFree).Usable .remote := fun _ => ⟨rfl, rfl⟩
      dsimp only
      rw [wp_bind, udpRemoteFree, wp_bind, wp_get, if_pos (by rfl), wp_bind, wp_logIo, wp_assign hs, wp_pure]
      rfl
    | some sa => rfl

end

def SockAddr.ofEx (sae : SockAddrEx) : SockAddr :=
  if sae.saLen = sizeofSockAddrIpV4 then .inet .inet (sae.sa.read 4 4) (ntohs sae.sa 2)
  else if sae.saLen = sizeofSockAddrIpV6 then .inet .inet6 (sae.sa.read 8 16) (ntohs sae.sa 2)
  else .unset

def SockAddr.ofAddrInfo (p : AddrInfo) : SockAddr :=
  if p.aiFamily = AF_INET then .inet .inet (p.aiAddr.read 4 4) (ntohs p.aiAddr 2)
  else .inet .inet6 (p.aiAddr.read 8 16) (ntohs p.aiAddr 2)

theorem SockAddr.ofEx_copyFamily (sa : SockAddrEx) {p : AddrInfo}
    (h : p.aiFamily = AF_INET ∨ p.aiFamily = AF_INET6)
    : SockAddr.ofEx (sa.copyFamily p) = .ofAddrInfo p := by
  have hread (n off k : Nat) (hle : off + k ≤ n)
      : (sa.copy p.aiAddr n).sa.read off k = p.aiAddr.read off k := by
    apply Mem.read_congr
    intro i hi
    exact SockAddrEx.copy_apply sa p.aiAddr n (by omega)
  have hport (n : Nat) (hle : 4 ≤ n)
      : ntohs (sa.copy p.aiAddr n).sa 2 = ntohs p.aiAddr 2 := by
    unfold ntohs
    rw [SockAddrEx.copy_apply sa p.aiAddr n (by omega), SockAddrEx.copy_apply sa p.aiAddr n (by omega)]
  unfold SockAddrEx.copyFamily SockAddr.ofAddrInfo SockAddr.ofEx
  split
  . rw [SockAddrEx.copy_saLen, if_pos rfl, hread _ _ _ (by decide), hport _ (by decide)]
  . next hne =>
    have hlen : sizeofSockAddrIpV6 ≠ sizeofSockAddrIpV4 := by decide
    rw [if_pos (h.resolve_left hne), SockAddrEx.copy_saLen, if_neg hlen, if_pos rfl,
      hread _ _ _ (by decide), hport _ (by decide)]

theorem SockAddr.ofAddrInfo_family {p : AddrInfo} (h : p.aiFamily = AF_INET ∨ p.aiFamily = AF_INET6)
    (ipv6First : Bool)
    : ∃ f addr port, SockAddr.ofAddrInfo p = .inet f addr port
        ∧ (f = (if ipv6First then .inet6 else .inet) ↔ p.aiFamily = preferAf ipv6First) := by
  unfold SockAddr.ofAddrInfo
  rcases h with h | h
  . rw [h, if_pos rfl]
    exact ⟨_, _, _, rfl, by cases ipv6First <;> decide⟩
  . rw [h, if_neg (by decide)]
    exact ⟨_, _, _, rfl, by cases ipv6First <;> decide⟩

/--
The `netUdpGetSockAddrEx` of the relay on addresses is the one of `core/net.c` on their bytes, as long as
there are only IPv4 and IPv6 addresses.
-/
theorem netUdpGetSockAddrEx_ofEx (servinfo : List AddrInfo)
    (h : ∀ p ∈ servinfo, p.aiFamily = AF_INET ∨ p.aiFamily = AF_INET6) (ipv6First : Bool)
    (sa : SockAddrEx)
    : netUdpGetSockAddrEx ipv6First (some (servinfo.map .ofAddrInfo)) (.ofEx sa)
        =
      if (Xsocks.netUdpGetSockAddrEx (.ok servinfo) ipv6First sa).rc = ERR then none
      else some (.ofEx (Xsocks.netUdpGetSockAddrEx (.ok servinfo) ipv6First sa).sa) := by
  cases servinfo with
  | nil => rfl
  | cons p servinfo =>
    have hp := h p List.mem_cons_self
    obtain ⟨f, addr, port, heq, hf⟩ := SockAddr.ofAddrInfo_family hp ipv6First
    have hok : OK ≠ ERR := by decide
    rw [List.map_cons, heq]
    dsimp only [netUdpGetSockAddrEx]
    by_cases hpref : p.aiFamily = preferAf ipv6First
    . rw [if_pos (hf.mpr hpref), netUdpGetSockAddrEx_prefer hpref, if_neg hok,
        SockAddr.ofEx_copyFamily sa hp, heq]
    . rw [if_neg (fun hc => hpref (hf.mp hc)), netUdpGetSockAddrEx_other hpref, if_neg hok]

end Xsocks.Udp
