import Xsocks.Tcp.Lemmas.ServerHandshake
import Xsocks.Udp.Lemmas.Truncation

/-!
This module contains which requests xs-server refuses because of its `outbound_block_list`. It asks for the
address of a TCP request only, and for no name. It does not ask at all when the request comes in a datagram.
-/

namespace Xsocks

open Wp

variable {κ : Type}

namespace Server

/-- The address that is asked for is on the list: its text, or the address its name stands for. -/
def Listed (E : Env κ) (addr : Socks5Addr) : Prop :=
  E.acl = true
    ∧ (E.outboundBlockMatchHost (.ofBuf addr.host) = true
        ∨ addr.atyp = .domain
          ∧ ∃ ip, E.anetResolve (.ofBuf addr.host) = some ip ∧ E.outboundBlockMatchHost ip = true)

def Found (E : Env κ) (atyp : Socks5Atyp) (host : CString) : Prop :=
  atyp = .domain → (E.anetResolve host).isSome = true

structure Request (E : Env κ) (m : Machine κ) (c : TcpShadowsocks κ) (data P : List Byte) (addr : Socks5Addr)
    : Prop where
  waiting : Waiting m c
  nonempty : data ≠ []
  read : m.netRead NET_IOBUF_LEN = ⟨data.length, false, data⟩
  decrypt : (E.crypto.decrypt c.dCtx data).res = .CRYPTO_OK P
  demand : (E.crypto.decrypt c.dCtx data).demand ≤ NET_IOBUF_LEN
  parse : parseAddr E.inet P = some addr

/--
No remote is created for the request for `addr`, whether a connection to it can be made or not. None can be
made to a name for which there is no address.
-/
def Refuses (E : Env κ) (m : Machine κ) (addr : Socks5Addr) : Prop :=
  ∀ connects, (connects = true
      → Found E (socks5HostParse (.ofBuf addr.host)) (reachedHost E.inet m.inp.uninit (.ofBuf addr.host)))
    → ∃ m', tcpClientOnRead E (m.withInp { m.inp with nonBlockConnect := connects }) = .ok () m'
        ∧ m'.remote = false

theorem Request.exists_remote {E : Env κ} (hI : E.inet.Lawful) {m : Machine κ} {c : TcpShadowsocks κ}
    {data P : List Byte} {addr : Socks5Addr} (h : Request E m c data P addr) (connects : Bool)
    : ∃ m', tcpClientOnRead E (m.withInp { m.inp with nonBlockConnect := connects }) = .ok () m'
        ∧ (m'.remote = true
            ↔ blocked E (socks5HostParse (.ofBuf addr.host))
                  (reachedHost E.inet m.inp.uninit (.ofBuf addr.host)) = false
              ∧ connects = true) := by
  apply exists_ok_unit
  have hdemand := h.demand
  have hread : (m.withInp { m.inp with nonBlockConnect := connects }).netRead NET_IOBUF_LEN
      = ⟨data.length, false, data⟩ := h.read
  rw [wp_tcpClientOnRead hI (h.waiting.withInp _) h.nonempty hread rfl]
  dsimp only
  rw [if_neg (by omega), h.decrypt]
  dsimp only
  rw [h.parse]
  dsimp only
  split
  . next hblocked =>
    change blocked E _ (reachedHost E.inet m.inp.uninit _) = true at hblocked
    simp [hblocked, h.waiting.remote]
  . next hblocked =>
    change ¬blocked E _ (reachedHost E.inet m.inp.uninit _) = true at hblocked
    rw [Bool.not_eq_true] at hblocked
    split
    . next hconnects =>
      change connects = true at hconnects
      simp [hblocked, hconnects, Machine.rewound]
    . next hconnects =>
      change ¬connects = true at hconnects
      simp [hconnects, h.waiting.remote]

theorem refuses_iff {E : Env κ} (hI : E.inet.Lawful) {m : Machine κ} {c : TcpShadowsocks κ}
    {data P : List Byte} {addr : Socks5Addr} (h : Request E m c data P addr)
    : Refuses E m addr
        ↔ blocked E (socks5HostParse (.ofBuf addr.host)) (reachedHost E.inet m.inp.uninit (.ofBuf addr.host)) = true
          ∨ ¬Found E (socks5HostParse (.ofBuf addr.host)) (reachedHost E.inet m.inp.uninit (.ofBuf addr.host)) := by
  constructor
  . intro hrefuses
    apply Decidable.or_iff_not_imp_left.mpr
    intro hblocked hfound
    obtain ⟨m₁, hm₁, hremote₁⟩ := hrefuses true fun _ => hfound
    obtain ⟨m₂, hm₂, hremote₂⟩ := h.exists_remote hI true
    rw [hm₁, EStateM.Result.ok.injEq] at hm₂
    rw [← hm₂.2, hremote₁] at hremote₂
    simp [hblocked] at hremote₂
  . intro hcond connects hconnects
    obtain ⟨m', hm', hremote⟩ := h.exists_remote hI connects
    refine ⟨m', hm', ?_⟩
    rw [← Bool.not_eq_true, hremote]
    rintro ⟨hblocked, htrue⟩
    rcases hcond with hcond | hcond
    . simp [hblocked] at hcond
    . exact hcond (hconnects htrue)

end Server

namespace Udp

structure Request (E : Env κ) (inp : Inputs) (sa : SockAddr) (data P : List Byte) (addr : Socks5Addr) : Prop where
  nonempty : data ≠ []
  recv : inp.recv = .datagram sa data
  decrypt : E.crypto.decryptAll (data.take NET_IOBUF_LEN) = some P
  parse : parseAddr E.inet P = some addr

/-- No datagram is sent to any address for the request, whether a socket can be created or not. -/
def UdpServer.Refuses (E : Env κ) (srv : UdpServer) (inp : Inputs) : Prop :=
  ∀ create sendto f a port c, .send .remote (.inet f a port) c
    ∉ srv.does E (.request, { inp with create := create, sendto := sendto }) srv.sessions.length

/-- What `netUdpGetSockAddrEx` finds for the address that is asked for. -/
def Request.dest (E : Env κ) (inp : Inputs) (addr : Socks5Addr) : Option SockAddr :=
  netUdpGetSockAddrEx E.ipv6First
    (inp.getaddrinfo (reachedHost E.inet inp.uninit (.ofBuf addr.host)) addr.port) .unset

namespace Request

variable {E : Env κ} {inp : Inputs} {sa : SockAddr} {data P : List Byte} {addr : Socks5Addr}

theorem target (hI : E.inet.Lawful) (happ : E.app = .xsServer) (h : Request E inp sa data P addr)
    (uninit' : Uninit)
    : E.target uninit' (.shadowsocks (encodeAddr E.inet inp.uninit (.ofBuf addr.host) addr.port))
        = some ⟨.RAW, reachedHost E.inet inp.uninit (.ofBuf addr.host), addr.port, .raw⟩ := by
  have hparsed := parsed_of_parseAddr h.parse
  have hlen := CString.length_ofBuf_le addr.host
  have hhost := hparsed.length_host
  simp only [Env.target, happ]
  rw [parseAddr_encodeAddr hI inp.uninit (.ofBuf addr.host) (by omega) hparsed.port, Option.map_some,
    CString.ofBuf_bytes]

theorem unwrap (h : Request E inp sa data P addr) (addrbufDest : List Byte)
    : (Proto.shadowsocks addrbufDest).unwrap E inp.uninit (data.take NET_IOBUF_LEN)
        = some (P.drop addr.consumed,
            .shadowsocks (encodeAddr E.inet inp.uninit (.ofBuf addr.host) addr.port)) := by
  rw [Proto.unwrap, h.decrypt]
  dsimp only
  rw [h.parse]

theorem refuses_iff (hI : E.inet.Lawful) (happ : E.app = .xsServer) (h : Request E inp sa data P addr)
    {srv : UdpServer} (hsrv : srv.Reachable E)
    : srv.Refuses E inp ↔ ∀ f a port, dest E inp addr ≠ some (.inet f a port) := by
  have hsrv := (UdpServer.joined_run hI hsrv).toOrdered
  obtain ⟨addrbufDest, haddrbuf⟩ := hsrv.serves.mp happ
  have hplain := h.unwrap addrbufDest
  rw [← haddrbuf] at hplain
  constructor
  . intro hrefuses f a port hdest
    let inp' := { inp with create := true, sendto := true }
    have hrecv : inp'.recv = .datagram sa data := h.recv
    obtain ⟨m, hm, hmem, -⟩ :=
      hsrv.served_of_plain hI hrecv h.nonempty hplain rfl (h.target hI happ _) hdest rfl rfl
    apply hrefuses true true f a port (P.drop addr.consumed)
    rw [UdpServer.does, UdpServer.traceOf_length, hm, UdpServer.traceOf_add]
    exact hmem
  . intro hdest create sendto f a port c hmem
    obtain ⟨sa', data', buf, proto, t, hrecv, -, hplain', htarget, hsa, -⟩ := hsrv.mem_does_request hI hmem
    have hrecv : inp.recv = .datagram sa' data' := hrecv
    rw [h.recv, RecvRes.datagram.injEq] at hrecv
    obtain ⟨rfl, rfl⟩ := hrecv
    have hplain' : srv.conn.proto.unwrap E inp.uninit (data.take NET_IOBUF_LEN) = some (buf, proto) := hplain'
    rw [hplain, Option.some.injEq, Prod.mk.injEq] at hplain'
    have htarget : E.target inp.uninit proto = some t := htarget
    rw [← hplain'.2, h.target hI happ, Option.some.injEq] at htarget
    subst htarget
    exact hdest f a port hsa

end Request

end Udp

/--
When a request for an address on the list is refused. A TCP request is refused if the address is on the list,
but not if there is only a rule for its name. A datagram is sent whenever there is an address to send it to.
-/
theorem block_list_enforced_iff (E : Env κ) (U : Udp.Env κ) (happ : U.app = .xsServer) (hinet : U.inet = E.inet)
    (hI : E.inet.Lawful)
    : (∀ m c data P addr, Server.Request E m c data P addr
          → ((Server.Listed E addr → Server.Refuses E m addr)
              ↔
             ¬Server.Listed E addr
               ∨ Server.blocked E (socks5HostParse (.ofBuf addr.host))
                   (reachedHost E.inet m.inp.uninit (.ofBuf addr.host)) = true
               ∨ ¬Server.Found E (socks5HostParse (.ofBuf addr.host))
                   (reachedHost E.inet m.inp.uninit (.ofBuf addr.host))))
        ∧ ∀ srv inp sa data P addr, Udp.UdpServer.Reachable U srv → Udp.Request U inp sa data P addr
          → ((Server.Listed E addr → srv.Refuses U inp)
              ↔
             ¬Server.Listed E addr ∨ ∀ f a port, Udp.Request.dest U inp addr ≠ some (.inet f a port)) := by
  constructor
  . intro m c data P addr h
    rw [imp_iff_not_or, Server.refuses_iff hI h]
  . intro srv inp sa data P addr hsrv h
    have hIU : U.inet.Lawful := by
      rw [hinet]
      exact hI
    rw [imp_iff_not_or, h.refuses_iff hIU happ hsrv]

def listsLocalhost : Env Unit :=
  { Env.default .xsServer .copy .text with
      acl := true
      outboundBlockMatchHost := fun text => text.bytes == localhost.bytes || text.bytes == [97]
      -- The address of "a" is "8.8.8.8".
      anetResolve := fun text => if text.bytes = [97] then some (.ofBuf [56, 46, 56, 46, 56, 46, 56]) else none }

def listsLocalhost.client (P : List Byte) : Machine Unit :=
  .accepted listsLocalhost .SHADOWSOCKS { Inputs.idle () with reads := [[.data P]] }

theorem block_list_enforced_localhost
    : Server.Listed listsLocalhost ⟨7, .ipv4, localhost.bytes, 80⟩
        ∧ Server.Refuses listsLocalhost (listsLocalhost.client [1, 127, 0, 0, 1, 0, 80, 9])
            ⟨7, .ipv4, localhost.bytes, 80⟩ := by
  have hlisted : Server.Listed listsLocalhost ⟨7, .ipv4, localhost.bytes, 80⟩ := ⟨rfl, .inl (by decide +kernel)⟩
  have hrequest : Server.Request listsLocalhost (listsLocalhost.client [1, 127, 0, 0, 1, 0, 80, 9])
      (.new ((), ())) [1, 127, 0, 0, 1, 0, 80, 9] [1, 127, 0, 0, 1, 0, 80, 9] ⟨7, .ipv4, localhost.bytes, 80⟩ :=
    ⟨Server.waiting_accepted _ _, by decide, by decide +kernel, rfl, by decide, by decide +kernel⟩
  have h := (block_list_enforced_iff listsLocalhost (.default .xsServer .copy .text) rfl rfl Inet.text_lawful).1
    _ _ _ _ _ hrequest
  exact ⟨hlisted, h.mpr (.inr (.inl (by decide +kernel))) hlisted⟩

/--
A datagram for 127.0.0.1 is sent to it, and a remote is created for the name "a": both are on the list.
-/
theorem block_list_ignored
    : Server.Listed listsLocalhost ⟨7, .ipv4, localhost.bytes, 80⟩
        ∧ Server.Listed listsLocalhost ⟨5, .domain, [97], 80⟩
        ∧ (∃ srv, Run.run (Udp.UdpServer.next (.default .xsServer .copy .text))
              (.new (.default .xsServer .copy .text)) [Udp.requestFor 1 1000] = .ok srv
            ∧ ∃ p ∈ srv.sessions, .send .remote (.inet .inet [127, 0, 0, 1] 80) [9] ∈ p.trace)
        ∧ ∃ m, tcpClientOnRead listsLocalhost (listsLocalhost.client [3, 1, 97, 0, 80, 9]) = .ok () m
            ∧ m.remote = true := by
  refine ⟨⟨rfl, .inl (by decide +kernel)⟩, ⟨rfl, .inl (by decide +kernel)⟩, ?_, exists_ok_unit (by decide +kernel)⟩
  exact Run.exists_ok_of_eval
    (r := Run.run (Udp.UdpServer.next (.default .xsServer .copy .text)) (.new (.default .xsServer .copy .text))
      [Udp.requestFor 1 1000])
    (fun srv => ∃ p ∈ srv.sessions, .send .remote (.inet .inet [127, 0, 0, 1] 80) [9] ∈ p.trace)
    (by decide +kernel)

end Xsocks
