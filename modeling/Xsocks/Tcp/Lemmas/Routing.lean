import Xsocks.Protocol.Impl.SockAddr
import Xsocks.Tcp.Lemmas.LocalHandshake

/-!
This module contains the ways of a destination through xs-redir and xs-local: the header it is sent with,
and the decision between a direct connection and the proxy.
-/

namespace Xsocks

open Wp Run

variable {κ : Type}

namespace SockAddr

variable {I : Inet}

def header (sa : SockAddr) : List Byte :=
  match sa.family with
  | .inet => 0x01 :: (sa.addr.val ++ sa.port.val)
  | .inet6 => 0x04 :: (sa.addr.val ++ sa.port.val)

def host (I : Inet) (sa : SockAddr) : CString :=
  I.ntop sa.family sa.addr

def portNumber (sa : SockAddr) : Nat :=
  ntohs (.ofList 0 sa.port.val) 0

theorem htons_portNumber (sa : SockAddr) : htons sa.portNumber = sa.port.val := by
  obtain ⟨f, a, ⟨port, hport⟩⟩ := sa
  obtain ⟨hi, lo, rfl⟩ := List.length_eq_two.mp hport
  have hhi := hi.toNat_lt
  have hlo := lo.toNat_lt
  have hnum : portNumber ⟨f, a, ⟨[hi, lo], hport⟩⟩ = hi.toNat * 256 + lo.toNat := rfl
  rw [hnum]
  simp only [htons, List.cons.injEq, and_true]
  constructor
  . apply UInt8.toNat_inj.mp
    rw [UInt8.toNat_ofNat']
    omega
  . apply UInt8.toNat_inj.mp
    rw [UInt8.toNat_ofNat']
    omega

theorem netIpPresentBySockAddr_eq (hI : I.Lawful) (sa : SockAddr)
    : netIpPresentBySockAddr I HOSTNAME_MAX_LEN sa = some (sa.host I, sa.portNumber) := by
  have hlen := hI.length_ntop sa.family sa.addr
  unfold netIpPresentBySockAddr netIpPresentByIpAddr Inet.inetNtop
  rw [if_pos (Nat.lt_trans hlen (by decide))]
  rfl

theorem encodeAddr_eq (hI : I.Lawful) (sa : SockAddr) (uninit : Uninit)
    : encodeAddr I uninit (sa.host I) sa.portNumber = sa.header := by
  unfold encodeAddr header host
  rw [socks5HostParse_ntop hI, htons_portNumber]
  obtain ⟨f, a, port⟩ := sa
  cases f with
  | inet =>
    dsimp only [Family.atyp]
    rw [resolved_ntop hI]
    rfl
  | inet6 =>
    dsimp only [Family.atyp]
    rw [resolved_ntop hI]
    rfl

theorem portNumber_lt (sa : SockAddr) : sa.portNumber < 65536 :=
  ntohs_lt _ _

theorem parseAddr_header (hI : I.Lawful) (sa : SockAddr)
    : parseAddr I sa.header = some ⟨sa.header.length, sa.family.atyp, (sa.host I).bytes, sa.portNumber⟩ := by
  have hlen := hI.length_ntop sa.family sa.addr
  have h := parseAddr_encodeAddr hI .zero (sa.host I) (Nat.lt_trans hlen (by decide)) sa.portNumber_lt
  rw [sa.encodeAddr_eq hI] at h
  rw [h, host, socks5HostParse_ntop hI, reachedHost, socks5HostParse_ntop hI]
  obtain ⟨f, a, port⟩ := sa
  cases f with
  | inet =>
    dsimp only [Family.atyp]
    rw [resolved_ntop hI]
  | inet6 =>
    dsimp only [Family.atyp]
    rw [resolved_ntop hI]

end SockAddr

def Env.bypasses (E : Env κ) (ip : CString) : Bool :=
  match E.getAclMode with
  | .BLACK_LIST => 0 < E.aclMatchHost ip
  | .WHITE_LIST => ¬E.aclMatchHost ip < 0

def Env.direct (E : Env κ) (atyp : Socks5Atyp) (host : CString) : Bool :=
  if E.acl = false then false
  else
    let hostMatch := if atyp = .domain then E.aclMatchHost host else 0
    if 0 < hostMatch then true
    else if hostMatch < 0 then false
    else if atyp ≠ .domain then E.bypasses host
    else
      match E.anetResolve host with
      | some ip => E.bypasses ip
      | none => false

def connectTo (E : Env κ) (bypass : Bool) (host : CString) (port : Nat) : Proc κ Unit := do
  if bypass then
    let ok ← tcpRemoteNew E .RAW host port
    if ok = false then tcpConnectionFree
  else
    let ok ← tcpRemoteNew E .SHADOWSOCKS E.remoteAddr E.remotePort
    if ok then tcpShadowsocksConnInit E .remote host port else tcpConnectionFree

section

variable {E : Env κ} {m : Machine κ}

theorem isBypass_eq (hacl : E.acl = true) (ip : CString) : isBypass E ip = pure (E.bypasses ip) := by
  unfold isBypass aclMatchHost Env.bypasses
  rw [if_pos hacl]
  cases E.getAclMode <;> rfl

theorem isBypass_uninitialised (hacl : E.acl = false) (ip : CString)
    : isBypass E ip = throw .uninitialised := by
  unfold isBypass aclMatchHost
  rw [if_neg (by simp [hacl])]
  rfl

theorem Local.bypass_eq (hacl : E.acl = true) {atyp : Socks5Atyp} (hatyp : atyp ≠ .domain) (host : CString)
    : Local.bypass E atyp host = pure (E.bypasses host) := by
  unfold Local.bypass
  rw [if_neg (by simp [hacl])]
  simp [hatyp, isBypass_eq hacl]

theorem Local.bypass_eq_direct (E : Env κ) (atyp : Socks5Atyp) (host : CString)
    : Local.bypass E atyp host = pure (E.direct atyp host) := by
  unfold Local.bypass Env.direct
  split
  . rfl
  . next hacl =>
    have hacl : E.acl = true := by simpa using hacl
    by_cases hatyp : atyp = .domain
    . simp only [hatyp, ↓reduceIte, aclMatchHost, hacl, pure_bind, ne_eq, not_true_eq_false]
      split
      . rfl
      . split
        . rfl
        . cases E.anetResolve host with
          | some ip => exact isBypass_eq hacl ip
          | none => rfl
    . simp [hatyp, isBypass_eq hacl]

theorem bind_get {α : Type} (f : Machine κ → Proc κ α) : (get >>= f) m = f m m := by
  rfl

theorem Redir.onAccept_eq (hacl : E.acl = true) {host : CString} {port : Nat}
    (hdest : m.inp.dest = some (host, port))
    : Redir.onAccept E m = connectTo E (E.bypasses host) host port m := by
  rw [Redir.onAccept, bind_get, hdest]
  dsimp only
  rw [isBypass_eq hacl]
  rfl

theorem Redir.onAccept_uninitialised (hacl : E.acl = false) {host : CString} {port : Nat}
    (hdest : m.inp.dest = some (host, port))
    : Redir.onAccept E m = .error .uninitialised m := by
  rw [Redir.onAccept, bind_get, hdest]
  dsimp only
  rw [isBypass_uninitialised hacl]
  rfl

theorem Local.newRemote_eq (hacl : E.acl = true) {addrbufDest : List Byte} {addr : Socks5Addr}
    (hparse : parseAddr E.inet addrbufDest = some addr) (hatyp : addr.atyp ≠ .domain)
    : Local.newRemote E (.created addrbufDest)
        = connectTo E (E.bypasses (.ofBuf addr.host)) (.ofBuf addr.host) addr.port := by
  have hdest : parseDest E addrbufDest = pure addr := by
    unfold parseDest
    unfold parseAddr at hparse
    rw [hparse]
  unfold Local.newRemote
  dsimp only
  rw [hdest, pure_bind, Local.bypass_eq hacl hatyp, pure_bind]
  rfl

theorem bind_of_ok {α β : Type} {x : Proc κ α} {f : α → Proc κ β} {a : α} {m' : Machine κ}
    (h : x m = .ok a m')
    : (x >>= f) m = f a m' := by
  simp only [bind, EStateM.bind, h]

theorem deref_of_usable {s : Side} (h : m.Usable s) : deref s m = .ok (m.conn s) m := by
  obtain ⟨c, m', heq, hc, hm⟩ := exists_ok_of_wp ((wp_deref h fun c m' => c = m.conn s ∧ m' = m).mpr ⟨rfl, rfl⟩)
  rw [heq, hc, hm]

theorem derefSocks5_of_usable {s : Side} (h : m.Usable s) {c : TcpSocks5}
    (hc : (m.conn s).proto = .socks5 c)
    : derefSocks5 s m = .ok c m := by
  rw [derefSocks5, bind_of_ok (deref_of_usable h), hc]
  rfl

theorem Local.handler_eq (happ : E.app = .xsLocal) {c : TcpSocks5} (h : Local.Greeting m c)
    (hstate : c.state = .STREAM)
    : handler E .client .read m = Local.newRemote E c.addrbufDest m := by
  have hclient := deref_of_usable h.alive.client
  have hread : Xsocks.tcpClientOnRead E = Local.tcpClientOnRead E := by
    rw [Xsocks.tcpClientOnRead, happ]
  have hstatus : handleTcpConnection E .client m = .ok OK m := by
    rw [handleTcpConnection, bind_of_ok hclient, if_pos h.connected]
    rfl
  rw [handler, tcpConnReadHandler, bind_of_ok hstatus, if_neg (by simp), fireRead, bind_of_ok hclient,
    hread, Local.tcpClientOnRead, bind_of_ok hclient,
    bind_of_ok (derefSocks5_of_usable h.alive.client h.proto), if_neg (by simp [hstate]), bind_get,
    if_pos h.remote]

theorem exists_connectTo (h : m.Usable .client) (hconnect : m.inp.nonBlockConnect = true) (bypass : Bool)
    (host : CString) (port : Nat)
    : ∃ m', connectTo E bypass host port m = .ok () m'
        ∧ match bypass with
          | true => (m'.conn .remote).proto = .raw
          | false => ∃ c, (m'.conn .remote).proto = .shadowsocks c ∧ c.state = .INIT
              ∧ c.addrbufDest = encodeAddr E.inet m.inp.uninit host port := by
  apply exists_ok_unit
  unfold connectTo
  cases bypass with
  | true =>
    rw [if_pos rfl, wp_bind, wp_tcpRemoteNew h, if_pos hconnect, if_neg (by simp), wp_pure,
      Machine.conn_dialled_remote]
    rfl
  | false =>
    have hremote : (m.dialled E .SHADOWSOCKS E.remoteAddr E.remotePort).Usable .remote :=
      Machine.usable_dialled h .remote
    rw [if_neg (by simp), wp_bind, wp_tcpRemoteNew h, if_pos hconnect, if_pos rfl, tcpShadowsocksConnInit,
      wp_bind, wp_get, socks5AddrInit_eq]
    dsimp only
    rw [wp_assignShadowsocks hremote (by rw [Machine.conn_dialled_remote]; rfl)]
    exact ⟨_, Machine.proto_setShadowsocks _, rfl, rfl⟩

end

/-- The header of a redirected connection is the destination that the kernel has kept of it. -/
theorem redir_header {E : Env κ} (hI : E.inet.Lawful) (sa : SockAddr)
    : ∃ host port, netIpPresentBySockAddr E.inet HOSTNAME_MAX_LEN sa = some (host, port)
        ∧ (∀ (m : Machine κ) s c, m.Usable s → (m.conn s).proto = .shadowsocks c
          → ∃ m', tcpShadowsocksConnInit E s host port m = .ok () m'
            ∧ (m'.conn s).proto = .shadowsocks { c with addrbufDest := sa.header })
        ∧ (∀ m : Machine κ, m.Usable .client → m.inp.nonBlockConnect = true
          → m.inp.dest = some (host, port) → E.acl = true → E.bypasses host = false
          → ∃ m' c, Redir.onAccept E m = .ok () m' ∧ (m'.conn .remote).proto = .shadowsocks c
            ∧ c.state = .INIT ∧ c.addrbufDest = sa.header) := by
  refine ⟨sa.host E.inet, sa.portNumber, sa.netIpPresentBySockAddr_eq hI, ?_, ?_⟩
  . intro m s c hs hc
    apply exists_ok_unit
    rw [tcpShadowsocksConnInit, wp_bind, wp_get, socks5AddrInit_eq, sa.encodeAddr_eq hI]
    dsimp only
    rw [wp_assignShadowsocks hs hc]
    apply Machine.proto_setShadowsocks
  . intro m hclient hconnect hdest hacl hbypass
    obtain ⟨m', heq, c, hproto, hstate, hdest'⟩ := exists_connectTo (E := E) hclient hconnect false
      (sa.host E.inet) sa.portNumber
    rw [sa.encodeAddr_eq hI] at hdest'
    refine ⟨m', c, ?_, hproto, hstate, hdest'⟩
    rw [Redir.onAccept_eq hacl hdest, hbypass]
    exact heq

theorem redir_header_localhost
    : let E : Env Unit := { Env.default .xsRedir .copy .text with acl := true }
      let sa : SockAddr := ⟨.inet, ⟨[127, 0, 0, 1], rfl⟩, ⟨[0, 80], rfl⟩⟩
      let inp := { Inputs.idle () with dest := netIpPresentBySockAddr .text HOSTNAME_MAX_LEN sa }
      ∃ m' c, Redir.onAccept E (.accepted E .RAW inp) = .ok () m' ∧ (m'.conn .remote).proto = .shadowsocks c
        ∧ c.state = .INIT ∧ c.addrbufDest = [1, 127, 0, 0, 1, 0, 80] := by
  intro E sa inp
  obtain ⟨host, port, hpresent, -, hredir⟩ := redir_header (E := E) Inet.text_lawful sa
  exact hredir (.accepted E .RAW inp) (Machine.alive_accepted E .RAW inp).client rfl hpresent rfl rfl

def Env.startedAs (E : Env κ) (app : App) : Env κ :=
  { E with app := app }

def SockAddr.request (sa : SockAddr) (rsv : Byte) : List Byte :=
  SVERSION :: SOCKS5_CMD_CONNECT :: rsv :: sa.header

/--
Both programs make the decision `bypass` for the destination `sa`: xs-local once the handshake with a
client that requests it is over, xs-redir on a connection that was redirected from it.
-/
structure RoutesTo (E : Env κ) (sa : SockAddr) (bypass : Bool) : Prop where
  xsLocal : ∀ m c, Local.Greeting m c → c.state = .HANDSHAKE → ∀ rsv inp uninit room, 10 ≤ room
    → ∃ m', pairStep (E.startedAs .xsLocal) m
          ((.client, .read), arrival inp uninit room (sa.request rsv)) = .ok m'
        ∧ (m'.conn .client).re = true
        ∧ ∀ inp', handler (E.startedAs .xsLocal) .client .read (m'.withInp inp')
          = connectTo (E.startedAs .xsLocal) bypass (sa.host E.inet) sa.portNumber (m'.withInp inp')
  xsRedir : ∀ m : Machine κ, m.inp.dest = netIpPresentBySockAddr E.inet HOSTNAME_MAX_LEN sa
    → Redir.onAccept (E.startedAs .xsRedir) m
      = connectTo (E.startedAs .xsRedir) bypass (sa.host E.inet) sa.portNumber m

/-- There is a decision that is the same in both programs, and it is the proxy without a list. -/
def RoutesAlike (E : Env κ) (sa : SockAddr) : Prop :=
  ∃ bypass, RoutesTo E sa bypass ∧ (E.acl = false → bypass = false)

section

variable {E : Env κ} {sa : SockAddr}

theorem SockAddr.length_request (sa : SockAddr) (rsv : Byte) : (sa.request rsv).length ≤ NET_IOBUF_LEN := by
  obtain ⟨f, a, port⟩ := sa
  have ha := a.property
  have hport := port.property
  unfold NET_IOBUF_LEN
  cases f <;> simp [request, header, ha, hport, Family.size]

theorem routesTo_of_acl (hI : E.inet.Lawful) (hacl : E.acl = true)
    : RoutesTo E sa (E.bypasses (sa.host E.inet)) := by
  constructor
  case xsLocal =>
    intro m c hm hstate rsv inp uninit room hroom
    have hrequest : requested E.inet (sa.request rsv) = some _ :=
      requested_of_parseAddr (sa.parseAddr_header hI)
    obtain ⟨m', heq, hm'⟩ := Local.pairStep_request inp uninit (E := E.startedAs .xsLocal) rfl hm hstate
      (List.cons_ne_nil _ _) (sa.length_request rsv) hroom hrequest
    refine ⟨m', heq, hm'.re, ?_⟩
    intro inp'
    have hencode : encodeAddr E.inet uninit (sa.host E.inet) sa.portNumber = sa.header :=
      sa.encodeAddr_eq hI uninit
    dsimp only at hm'
    rw [CString.ofBuf_bytes] at hm'
    rw [Local.handler_eq rfl (hm'.withInp inp') rfl]
    dsimp only [Env.startedAs]
    rw [hencode]
    have hnew := Local.newRemote_eq (E := E.startedAs .xsLocal) hacl (sa.parseAddr_header hI)
      (by cases sa.family <;> simp [Family.atyp])
    dsimp only at hnew
    rw [CString.ofBuf_bytes] at hnew
    exact congrFun hnew _
  case xsRedir =>
    intro m hdest
    rw [sa.netIpPresentBySockAddr_eq hI] at hdest
    exact Redir.onAccept_eq (E := E.startedAs .xsRedir) hacl hdest

theorem not_routesTo (hI : E.inet.Lawful) (hacl : E.acl = false) (k : κ) (bypass : Bool)
    : ¬RoutesTo E sa bypass := by
  intro h
  let inp : Inputs κ := { Inputs.idle k with dest := some (sa.host E.inet, sa.portNumber) }
  have hclient : (Machine.accepted E .RAW inp).Usable .client := (Machine.alive_accepted E .RAW inp).client
  have hdest : (Machine.accepted E .RAW inp).inp.dest = some (sa.host E.inet, sa.portNumber) := rfl
  have hrun := h.xsRedir (.accepted E .RAW inp) (by rw [sa.netIpPresentBySockAddr_eq hI]; rfl)
  rw [Redir.onAccept_uninitialised (E := E.startedAs .xsRedir) hacl hdest] at hrun
  obtain ⟨m', heq, -⟩ := exists_connectTo (E := E.startedAs .xsRedir) hclient rfl bypass (sa.host E.inet)
    sa.portNumber
  rw [heq] at hrun
  contradiction

end

theorem routesAlike_iff [Inhabited κ] {E : Env κ} (hI : E.inet.Lawful) (sa : SockAddr)
    : RoutesAlike E sa ↔ E.acl = true := by
  constructor
  . intro ⟨bypass, h, _⟩
    by_contra hacl
    exact not_routesTo hI (by simpa using hacl) default bypass h
  . intro hacl
    exact ⟨_, routesTo_of_acl hI hacl, by simp [hacl]⟩

theorem routesAlike_localhost
    : let E : Env Unit := { Env.default .xsLocal .copy .text with
        acl := true, aclMatchHost := fun host => if host = localhost then 1 else 0 }
      RoutesAlike E ⟨.inet, ⟨[127, 0, 0, 1], rfl⟩, ⟨[0, 80], rfl⟩⟩ := by
  intro E
  exact (routesAlike_iff (E := E) Inet.text_lawful _).mpr rfl

/-- The default configuration has no list. -/
theorem default_not_routesAlike
    : ¬RoutesAlike (Env.default .xsRedir .copy .text) ⟨.inet, ⟨[127, 0, 0, 1], rfl⟩, ⟨[0, 80], rfl⟩⟩ := by
  intro ⟨bypass, h, _⟩
  exact not_routesTo Inet.text_lawful rfl () bypass h

end Xsocks
