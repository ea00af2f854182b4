import Xsocks.Core.Lemmas.HostPort
import Xsocks.Udp.Impl.Tunnel
import Xsocks.Udp.Lemmas.Truncation

/-!
This module contains what xs-tunnel makes of the text of a tunnel address: which texts are honoured in every
datagram it sends.
-/

namespace Xsocks.Udp

open Wp Run

variable {κ : Type}

def Env.Dials (E : Env κ) (c : List Byte) : Prop :=
  ∃ uninit nonce buf,
    E.crypto.encryptAll nonce (encodeAddr E.inet uninit E.tunnelAddr.text E.tunnelPort ++ buf) = some c

namespace Machine

variable {E : Env κ} {m m' : Machine}

theorem Served.dials (happ : E.app = .xsTunnel) (htrace : m.trace = []) (h : m.Served E m') {sa : SockAddr}
    {c : List Byte} (hmem : .send .remote sa c ∈ m'.trace)
    : E.Dials c := by
  obtain ⟨sa', data, buf, proto, t, -, -, -, htarget, -, hwrap⟩ := h.mem_send_remote htrace hmem
  simp only [Env.target, happ, Option.some.injEq] at htarget
  rw [← htarget] at hwrap
  exact ⟨m.inp.uninit, m.inp.nonce, buf, hwrap⟩

theorem Answered.mem_send_remote (h : m.Answered E m') {sa : SockAddr} {c : List Byte}
    (hmem : .send .remote sa c ∈ m'.trace)
    : .send .remote sa c ∈ m.trace := by
  cases h with
  | unread hread => cases hread <;> simpa [closed] using hmem
  | answered hread hwrite =>
    cases hread with
    | plain =>
      cases hwrite with
      | failed => simpa [closed] using hmem
      | sent => simpa using hmem

end Machine

namespace UdpServer

variable {E : Env κ} {srv srv' : UdpServer}

def Dialing (E : Env κ) (srv : UdpServer) : Prop :=
  ∀ p ∈ srv.sessions, ∀ sa c, .send .remote sa c ∈ p.trace → E.Dials c

theorem dialing_new : Dialing E (.new E) := by
  intro p hp
  simp [new] at hp

theorem Dialing.add (h : srv.Dialing E) {m : Machine}
    (hm : ∀ sa c, .send .remote sa c ∈ m.trace → E.Dials c)
    : (srv.add m).Dialing E := by
  intro p hp sa c hmem
  rcases mem_add hp with hp | rfl
  . exact h p hp sa c hmem
  . exact hm sa c hmem

theorem Dialing.store (h : srv.Dialing E) {m : Machine} (i : Nat)
    (hm : ∀ sa c, .send .remote sa c ∈ m.trace → E.Dials c)
    : (srv.store i m).Dialing E := by
  intro p hp sa c hmem
  rcases mem_store hp with hp | rfl
  . exact h p hp sa c hmem
  . exact hm sa c hmem

theorem Dialing.next (happ : E.app = .xsTunnel) (h : srv.Dialing E) {a : Event × Inputs}
    (hstep : srv.Steps E a srv')
    : srv'.Dialing E := by
  cases hstep with
  | idle => exact h
  | request ha hm => exact h.add fun sa c hmem => hm.dials happ rfl hmem
  | mishap ha hm => exact h.add fun sa c hmem => absurd hmem (hm.not_mem_send rfl .remote sa c)
  | reply ha hp hwaiting hm =>
    apply h.store
    intro sa c hmem
    exact h _ (List.mem_of_getElem? hp) sa c (hm.mem_send_remote hmem)
  | @timeout i p ha hp hwaiting =>
    apply h.store
    intro sa c hmem
    have hmem : .send .remote sa c ∈ (srv.machine p a.2).trace := by simpa using hmem
    exact h _ (List.mem_of_getElem? hp) sa c hmem

theorem dialing_run (happ : E.app = .xsTunnel) (hI : E.inet.Lawful) {as : List (Event × Inputs)}
    (hrun : run (UdpServer.next E) (.new E) as = .ok srv)
    : srv.Dialing E := by
  have hinv : srv.Ordered E ∧ srv.Dialing E := by
    refine invariant_run (I := fun srv => srv.Ordered E ∧ srv.Dialing E) (C := fun _ _ => True) ?_
      ⟨ordered_new, dialing_new⟩ (along_true _ _ as) hrun
    intro srv a srv' h _ heq
    rw [UdpServer.next, Except.ok.injEq] at heq
    rw [← heq]
    have hstep := h.1.steps hI a
    exact ⟨h.1.next hstep, h.2.next happ hstep⟩
  exact hinv.2

end UdpServer

/-! # Texts -/

def SameHost (I : Inet) (host : CString) (out : List Byte) : Prop :=
  out = host.bytes ∨ ∃ f addr, I.pton f host = some addr ∧ out = (I.ntop f addr).bytes

inductive Names (I : Inet) (text host : CString) (port : Nat) : Prop where
  | plain {d : List Byte} (h : text.bytes = host.bytes ++ 58 :: d) (hd : Decimal.Numeral d)
      (hport : Decimal.val 0 d = port)
  | bracketed {d : List Byte} (h : text.bytes = 91 :: (host.bytes ++ [93]) ++ 58 :: d)
      (hd : Decimal.Numeral d) (hport : Decimal.val 0 d = port) (hip : (I.pton .inet6 host).isSome = true)

structure WellFormed (I : Inet) (text host : CString) (port : Nat) : Prop where
  names : Names I text host port
  port_pos : 1 ≤ port
  port_le : port ≤ 65535
  host_pos : 1 ≤ host.bytes.length
  host_le : host.bytes.length ≤ 255

def Carries (C : Crypto κ) (I : Inet) (host : CString) (port : Nat) (c : List Byte) : Prop :=
  ∃ nonce P addr, C.encryptAll nonce P = some c ∧ parseAddr I P = some addr ∧ SameHost I host addr.host
    ∧ addr.port = port

def Env.Tunnels (E : Env κ) (host : CString) (port : Nat) : Prop :=
  ∀ as srv, run (UdpServer.next E) (.new E) as = .ok srv →
    ∀ p ∈ srv.sessions, ∀ sa c, .send .remote sa c ∈ p.trace → Carries E.crypto E.inet host port c

def TunnelExit.Fails : TunnelExit → Prop
  | .config (.fatal _) | .config .nullDeref | .error _ => True
  | .config .version | .config .overflow | .usage => False

/--
In every start-up that is given the tunnel address `text`, xs-tunnel fails, or the text is well-formed and the
address is the one that is found in its datagrams. Nothing is stored outside of `tunnel_addr`.
-/
def Honoured (I : Inet) (text : CString) : Prop :=
  ∀ (κ : Type) (T : Host κ) (opts : List Opt), T.inet = I → GivenTunnel T.config opts text →
    match moduleInit T opts with
    | .ok E => ∃ host port, WellFormed I text host port ∧ E.Tunnels host port
    | .error e => e.Fails ∨ e ≠ .config .overflow ∧ ∃ host port, WellFormed I text host port

/--
The texts that xs-tunnel understands: a host of 1 to 255 bytes in front of the last colon, which `inet_pton`
takes for an address if it looks like one, and the digits of a port behind it.
-/
def Understood (I : Inet) (text : CString) : Prop :=
  ∃ host d, text.bytes = CString.bytes host ++ 58 :: d ∧ Decimal.Numeral d
    ∧ 1 ≤ Decimal.val 0 d ∧ Decimal.val 0 d ≤ 65535
    ∧ 1 ≤ host.bytes.length ∧ host.bytes.length ≤ 255 ∧ I.Encodes host

/-! # Start-up -/

structure Split (text : CString) (config : Config) (host : Bytes HOSTNAME_MAX_LEN) : Prop where
  parsed : ∃ port₀ rc, netHostPortParse text hostZero port₀ = some (rc, host, config.tunnelPort)
  tunnelAddr : config.tunnelAddr = some host

structure Configured (T : Host κ) (text : CString) (E : Env κ) : Prop where
  app : E.app = .xsTunnel
  inet : E.inet = T.inet
  addr : ∃ port₀ rc host port, netHostPortParse text hostZero port₀ = some (rc, host, port)
    ∧ E.tunnelAddr.text = .ofBuf host.val ∧ E.tunnelPort = (port.toInt % 65536).toNat

def Overflows (text : CString) : Prop :=
  ∃ port₀, netHostPortParse text hostZero port₀ = none
    ∨ ∃ rc host port, netHostPortParse text hostZero port₀ = some (rc, host, port)
      ∧ HOSTNAME_MAX_LEN ≤ (CString.ofBuf host.val).bytes.length

def Starts (T : Host κ) (text : CString) : Except TunnelExit (Env κ) → Prop
  | .ok E => Configured T text E
  | .error e => e = .config .overflow → Overflows text

theorem starts_error (T : Host κ) (text : CString) (e : Option String) : Starts T text (.error (.error e)) := by
  intro hover
  contradiction

theorem starts_tunnelInit (T : Host κ) {text : CString} {config : Config} {host : Bytes HOSTNAME_MAX_LEN}
    (h : Split text config host) (crypto : Crypto κ)
    : Starts T text (tunnelInit T config crypto) := by
  obtain ⟨port₀, rc, hparse⟩ := h.parsed
  rw [tunnelInit, h.tunnelAddr]
  dsimp only
  split
  . exact starts_error T text _
  . split
    . exact ⟨rfl, rfl, port₀, rc, host, _, hparse, rfl, rfl⟩
    . next hlen => exact fun _ => ⟨port₀, .inr ⟨rc, host, _, hparse, by omega⟩⟩

theorem starts_moduleInit {T : Host κ} {opts : List Opt} {text : CString} (h : GivenTunnel T.config opts text)
    : Starts T text (moduleInit T opts) := by
  have hconfig := wp_configParse h
  rw [wp] at hconfig
  rw [moduleInit]
  split at hconfig
  . next rc st heq =>
    obtain ⟨port₀, rc', host, port, hparse, haddr, hport⟩ := hconfig
    have hsplit : Split text st.config host := ⟨⟨port₀, rc', by rw [hparse, hport]⟩, haddr⟩
    rw [heq]
    dsimp only
    split
    . intro hover
      contradiction
    . split
      . exact starts_error T text _
      . split
        . exact starts_error T text _
        . split
          . exact starts_error T text _
          . split
            . exact starts_error T text _
            . exact starts_tunnelInit T hsplit _
  . next e st heq =>
    rw [heq]
    intro hover
    injection hover with hover
    obtain ⟨port₀, hnone⟩ := hconfig hover
    exact ⟨port₀, .inl hnone⟩

/-! # Understood texts -/

theorem sameHost_reachedHost {I : Inet} {host : CString} (h : I.Encodes host) (uninit : Uninit)
    : SameHost I host (reachedHost I uninit host).bytes := by
  unfold Inet.Encodes at h
  unfold reachedHost Inet.resolved
  cases hparse : socks5HostParse host with
  | ipv4 =>
    rw [hparse] at h
    obtain ⟨addr, haddr⟩ := Option.isSome_iff_exists.mp h
    exact .inr ⟨.inet, addr, haddr, by rw [haddr, Option.getD_some]⟩
  | ipv6 =>
    rw [hparse] at h
    obtain ⟨addr, haddr⟩ := Option.isSome_iff_exists.mp h
    exact .inr ⟨.inet6, addr, haddr, by rw [haddr, Option.getD_some]⟩
  | domain => exact .inl rfl

theorem parseAddr_tunnel {I : Inet} (hI : I.Lawful) (uninit : Uninit) (host : HostName) {port : Nat}
    (hport : port < 65536) (payload : List Byte)
    : ∃ addr, parseAddr I (encodeAddr I uninit host.text port ++ payload) = some addr
        ∧ addr.host = (reachedHost I uninit host.text).bytes ∧ addr.port = port := by
  have hparse := parseAddr_encodeAddr hI uninit host.text host.length_lt hport
  exact ⟨_, parseAddr_of_isPrefix_right hparse (List.prefix_append _ _), rfl, rfl⟩

theorem Understood.overflows {I : Inet} {text : CString} (h : Understood I text) : ¬ Overflows text := by
  obtain ⟨host, d, heq, hd, -, -, -, hlen, -⟩ := h
  rintro ⟨port₀, hnone | ⟨rc, buf, port, hparse, hlong⟩⟩
  . obtain ⟨buf, hsome, -⟩ := netHostPortParse_some heq (colon_not_mem_numeral hd) hlen hostZero port₀
    rw [hsome] at hnone
    contradiction
  . obtain ⟨buf', hsome, hbuf⟩ := netHostPortParse_some heq (colon_not_mem_numeral hd) hlen hostZero port₀
    rw [hsome] at hparse
    simp only [Option.some.injEq, Prod.mk.injEq] at hparse
    rw [← hparse.2.1, hbuf, HOSTNAME_MAX_LEN] at hlong
    omega

theorem Configured.tunnels {I : Inet} (hI : I.Lawful) {T : Host κ} (hT : T.inet = I) {text : CString}
    {E : Env κ} (h : Configured T text E) {host : CString} {d : List Byte}
    (heq : text.bytes = host.bytes ++ 58 :: d) (hd : Decimal.Numeral d) (hport : Decimal.val 0 d ≤ 65535)
    (hlen : host.bytes.length ≤ 255) (hhost : I.Encodes host)
    : E.Tunnels host (Decimal.val 0 d) := by
  obtain ⟨port₀, rc, buf, port, hparse, haddr, hnum⟩ := h.addr
  obtain ⟨buf', hsome, hbuf⟩ := netHostPortParse_some heq (colon_not_mem_numeral hd) hlen hostZero port₀
  rw [hsome] at hparse
  simp only [Option.some.injEq, Prod.mk.injEq] at hparse
  obtain ⟨-, rfl, rfl⟩ := hparse
  rw [hbuf] at haddr
  have hval : E.tunnelPort = Decimal.val 0 d := by
    rw [hnum, atoi_numeral hd (by omega)]
    omega
  have hinet : E.inet = I := h.inet.trans hT
  intro as srv hrun p hp sa c hmem
  obtain ⟨uninit, nonce, payload, hc⟩ := UdpServer.dialing_run h.app (hinet ▸ hI) hrun p hp sa c hmem
  have hlt : E.tunnelPort < 65536 := by omega
  obtain ⟨addr, hparse, hhost', hport'⟩ := parseAddr_tunnel hI uninit E.tunnelAddr hlt payload
  rw [hinet] at hc ⊢
  refine ⟨nonce, _, addr, hc, hparse, ?_, by rw [hport', hval]⟩
  rw [hhost', haddr]
  exact sameHost_reachedHost hhost uninit

theorem Understood.honoured {I : Inet} (hI : I.Lawful) {text : CString} (h : Understood I text)
    : Honoured I text := by
  have hover := h.overflows
  obtain ⟨host, d, heq, hd, hport, hport', hhost, hlen, hencodes⟩ := h
  have hformed : WellFormed I text host (Decimal.val 0 d) := ⟨.plain heq hd rfl, hport, hport', hhost, hlen⟩
  intro κ T opts hT hgiven
  have hstarts := starts_moduleInit hgiven
  split
  . next E hE =>
    rw [hE] at hstarts
    exact ⟨host, _, hformed, Configured.tunnels hI hT hstarts heq hd hport' hlen hencodes⟩
  . next e he =>
    rw [he] at hstarts
    exact .inr ⟨fun h => hover (hstarts h), host, _, hformed⟩

/-! # Other texts -/

/-- A host on which nothing fails, with a cipher that leaves the data as they are. -/
def Host.plain (I : Inet) : Host Unit where
  config := { append _ := none, file _ := .invalid }
  inet := I
  pidfile _ := none
  cryptoInit _ _ _ := some .copy
  initAcl _ := true
  udpServerNew _ _ := true

theorem givenTunnel_plain (I : Inet) (text : CString)
    : GivenTunnel (Host.plain I).config [.U, .L text] text :=
  .inl rfl

def plainConfig (text : CString) : Config :=
  { configNew with mode := MODE_UDP_ONLY, tunnelAddress := some text }

def splitConfig (text : CString) (host : Bytes HOSTNAME_MAX_LEN) (port : Int32) : Config :=
  { plainConfig text with tunnelAddr := some host, tunnelPort := port, tunnelAddress := none }

theorem configParse_plain (env : ConfigEnv) (text : CString)
    : configParse env [.U, .L text] ⟨configNew, .zero⟩
        =
      match netHostPortParse text hostZero 0 with
      | none => .error .overflow ⟨plainConfig text, .zero⟩
      | some (_, host, port) => .ok OK ⟨splitConfig text host port, .zero⟩ := by
  have hload : configParse env [.U, .L text] ⟨configNew, .zero⟩
      = (configTunnel >>= fun _ => pure OK) ⟨plainConfig text, .zero⟩ := rfl
  have haddr : (plainConfig text).tunnelAddress = some text := rfl
  have hport : (plainConfig text).tunnelPort = 0 := rfl
  rw [hload]
  cases hparse : netHostPortParse text hostZero 0 with
  | none =>
    apply eq_error_of_wp_iff
    intro Q F
    rw [wp_bind, configTunnel, wp_bind, wp_get]
    dsimp only
    rw [haddr]
    dsimp only
    rw [hport, hparse]
    rfl
  | some parsed =>
    apply eq_ok_of_wp_iff
    intro Q F
    rw [wp_bind, configTunnel, wp_bind, wp_get]
    dsimp only
    rw [haddr]
    dsimp only
    rw [hport, hparse]
    rfl

theorem moduleInit_plain_overflow (I : Inet) {text : CString}
    (h : netHostPortParse text hostZero 0 = none)
    : moduleInit (Host.plain I) [.U, .L text] = .error (.config .overflow) := by
  rw [moduleInit, configParse_plain, h]

theorem moduleInit_plain (I : Inet) {text : CString} {rc : Int} {host : Bytes HOSTNAME_MAX_LEN} {port : Int32}
    (h : netHostPortParse text hostZero 0 = some (rc, host, port))
    (hlen : (CString.ofBuf host.val).bytes.length < HOSTNAME_MAX_LEN)
    : moduleInit (Host.plain I) [.U, .L text]
        = .ok (tunnelEnv (Host.plain I) (splitConfig text host port) .copy ⟨_, hlen⟩) := by
  have hmode : ¬(MODE_UDP_ONLY &&& MODE_UDP_ONLY = 0 ∨ true = false) := by decide
  have hinit : tunnelInit (Host.plain I) (splitConfig text host port) .copy
      = .ok (tunnelEnv (Host.plain I) (splitConfig text host port) .copy ⟨_, hlen⟩) := by
    rw [tunnelInit]
    dsimp only [splitConfig]
    rw [dif_pos hlen]
    exact if_neg hmode
  rw [moduleInit, configParse_plain, h]
  exact hinit

theorem sameHost_of_tunnels {I : Inet} (hI : I.Lawful) {E : Env Unit} (happ : E.app = .xsTunnel)
    (hcrypto : E.crypto = .copy) (hinet : E.inet = I) (hlt : E.tunnelPort < 65536) {host : CString} {port : Nat}
    (h : E.Tunnels host port) (uninit : Uninit)
    : SameHost I host (reachedHost I uninit E.tunnelAddr.text).bytes := by
  have hE : E.inet.Lawful := hinet ▸ hI
  have hserver : (UdpServer.new E).conn.proto = .raw := by
    rw [UdpServer.new, happ]
    rfl
  have hsends : (UdpServer.new E).RequestSends E uninit [] [7]
      (encodeAddr E.inet uninit E.tunnelAddr.text E.tunnelPort ++ [7]) := by
    refine ⟨[7], .raw, ⟨.SHADOWSOCKS, E.remoteAddr, E.remotePort,
      .shadowsocks (encodeAddr E.inet uninit E.tunnelAddr.text E.tunnelPort)⟩, ?_, ?_, ?_⟩
    . rw [hserver]
      rfl
    . simp [Env.target, happ]
    . rw [Proto.wrap, hcrypto]
      rfl
  obtain ⟨m, hstep, hmem, -⟩ := UdpServer.ordered_new.served_of_requestSends hE (by simp) hsends
  have hrun : run (UdpServer.next E) (.new E) [(.request, UdpServer.works [7] [] uninit)]
      = .ok ((UdpServer.new E).add m) := by
    rw [run, UdpServer.next, hstep]
    rfl
  obtain ⟨nonce, P, addr, hP, haddr, hsame, -⟩ := h _ _ hrun m.session (by simp [UdpServer.add]) _ _ hmem
  rw [hcrypto, Crypto.copy, Option.some_inj] at hP
  obtain ⟨addr', haddr', hhost, -⟩ := parseAddr_tunnel hE uninit E.tunnelAddr hlt [7]
  rw [hP, haddr', Option.some_inj] at haddr
  rw [← haddr, hhost, hinet] at hsame
  exact hsame

theorem pton_of_sameHost {I : Inet} (hI : I.Lawful) {host : CString} {f : Family} {a : Bytes f.size}
    (h : SameHost I host (I.ntop f a).bytes)
    : I.pton f host = some a := by
  rcases h with heq | ⟨f', a', hpton, heq⟩
  . rw [← CString.ext heq]
    exact hI.pton_ntop f a
  . have hntop := CString.ext heq
    -- Only the texts of IPv6 addresses have colons in them.
    have hcolon (x : Bytes Family.inet.size) : 58 ∉ (I.ntop .inet x).bytes := by
      intro hmem
      have := hI.ntop_inet x 58 hmem
      revert this
      decide
    cases f <;> cases f'
    . have := hI.pton_ntop .inet a
      rw [hntop, hI.pton_ntop .inet a', Option.some_inj] at this
      rw [hpton, this]
    . exact absurd (hntop ▸ hI.ntop_inet6 a') (hcolon a)
    . exact absurd (hntop ▸ hI.ntop_inet6 a) (hcolon a')
    . have := hI.pton_ntop .inet6 a
      rw [hntop, hI.pton_ntop .inet6 a', Option.some_inj] at this
      rw [hpton, this]

theorem encodes_of_sameHost {I : Inet} (hI : I.Lawful) {host h : CString}
    (hsame : ∀ uninit, SameHost I host (reachedHost I uninit h).bytes)
    : I.Encodes h := by
  have hfamily (f : Family) (hnone : I.pton f h = none)
      (hreached : ∀ uninit, reachedHost I uninit h = I.ntop f (I.resolved uninit f h)) : False := by
    have hpton (uninit : Uninit) : I.pton f host = some (uninit f) := by
      apply pton_of_sameHost hI
      have := hsame uninit
      rw [hreached, Inet.resolved, hnone] at this
      exact this
    have hval := congrArg Subtype.val (Option.some.inj ((hpton .zero).symm.trans (hpton .one)))
    cases f <;> simp [Uninit.one, Uninit.zero, Family.size] at hval
  unfold Inet.Encodes
  cases hparse : socks5HostParse h with
  | ipv4 =>
    dsimp only
    rw [Option.isSome_iff_ne_none]
    intro hnone
    exact hfamily .inet hnone fun uninit => by rw [reachedHost, hparse]
  | ipv6 =>
    dsimp only
    rw [Option.isSome_iff_ne_none]
    intro hnone
    exact hfamily .inet6 hnone fun uninit => by rw [reachedHost, hparse]
  | domain => trivial

theorem WellFormed.split {I : Inet} {text host : CString} {port : Nat} (h : WellFormed I text host port)
    : ∃ first d, text.bytes = first ++ 58 :: d ∧ first ≠ [] ∧ Decimal.Numeral d ∧ Decimal.val 0 d = port := by
  cases h.names with
  | @plain d heq hd hport =>
    refine ⟨host.bytes, d, heq, ?_, hd, hport⟩
    rw [← List.length_pos_iff]
    exact h.host_pos
  | @bracketed d heq hd hport hip => exact ⟨_, d, heq, List.cons_ne_nil _ _, hd, hport⟩

theorem Honoured.understood {I : Inet} (hI : I.Lawful) {text : CString} (h : Honoured I text)
    : Understood I text := by
  have hplain := h Unit (Host.plain I) [.U, .L text] rfl (givenTunnel_plain I text)
  by_cases hcolon : 58 ∈ text.bytes
  . obtain ⟨first, d, heq, hd⟩ : ∃ first d, text.bytes = first ++ 58 :: d ∧ 58 ∉ d := by
      cases hlast : strrchr 58 text.bytes with
      | none => exact absurd hcolon (strrchr_eq_none_iff.mp hlast)
      | some i =>
        obtain ⟨d, heq, hd, -⟩ := exists_of_strrchr hlast
        exact ⟨_, d, heq, hd⟩
    have hnoNul : 0 ∉ first := fun hmem => text.noNul (heq ▸ List.mem_append_left _ hmem)
    let host : CString := ⟨first, hnoNul⟩
    by_cases hlen : first.length ≤ 255
    . obtain ⟨buf, hparse, hbuf⟩ := @netHostPortParse_some text host d heq hd hlen hostZero 0
      have hlt : (CString.ofBuf buf.val).bytes.length < HOSTNAME_MAX_LEN := by
        rw [hbuf, HOSTNAME_MAX_LEN]
        exact Nat.lt_succ_of_le hlen
      rw [moduleInit_plain I hparse hlt] at hplain
      obtain ⟨host', port, hformed, htunnels⟩ := hplain
      obtain ⟨first', d', heq', hne, hnum, hport⟩ := hformed.split
      obtain ⟨rfl, rfl⟩ := eq_of_append_cons (heq.symm.trans heq') hd (colon_not_mem_numeral hnum)
      refine ⟨host, d, heq, hnum, ?_, ?_, List.length_pos_iff.mpr hne, hlen, ?_⟩
      . rw [hport]
        exact hformed.port_pos
      . rw [hport]
        exact hformed.port_le
      . apply @encodes_of_sameHost I hI host' host
        intro uninit
        have hport : (tunnelEnv (Host.plain I) (splitConfig text buf (atoi d)) .copy ⟨_, hlt⟩).tunnelPort
            < 65536 := by
          dsimp only [tunnelEnv]
          omega
        have hsame := sameHost_of_tunnels hI rfl rfl rfl hport htunnels uninit
        have htext : (tunnelEnv (Host.plain I) (splitConfig text buf (atoi d)) .copy ⟨_, hlt⟩).tunnelAddr.text
            = host := hbuf
        rw [htext] at hsame
        exact hsame
    . rw [moduleInit_plain_overflow I (netHostPortParse_overflow heq hd (by omega) hostZero 0)] at hplain
      rcases hplain with hfails | ⟨hne, -⟩
      . exact hfails.elim
      . exact absurd rfl hne
  . have hlt : (CString.ofBuf hostZero.val).bytes.length < HOSTNAME_MAX_LEN := by decide
    rw [moduleInit_plain I (netHostPortParse_none hcolon hostZero 0) hlt] at hplain
    obtain ⟨host, port, hformed, -⟩ := hplain
    obtain ⟨first, d, heq, -⟩ := hformed.split
    rw [heq] at hcolon
    simp at hcolon

/--
A tunnel address is honoured or refused if and only if it is understood. Nothing is ever refused for its form: a
text without a colon, a port that is no number or out of range and an empty host all give some other destination.
-/
theorem honoured_iff (I : Inet) (hI : I.Lawful) (text : CString) : Honoured I text ↔ Understood I text :=
  ⟨fun h => h.understood hI, fun h => h.honoured hI⟩

theorem honoured_iff_localhost : Honoured .text (.ofAscii "localhost:53") :=
  (honoured_iff .text Inet.text_lawful (.ofAscii "localhost:53")).mpr
    ⟨.ofAscii "localhost", [53, 51], by decide⟩

/-- Without a colon there is no host and no port, but a program that serves. -/
theorem not_honoured : ¬ Honoured .text (.ofAscii "8.8.8.8") := by
  intro h
  have hcolon : 58 ∉ (CString.ofAscii "8.8.8.8").bytes := by decide
  have hlt : (CString.ofBuf hostZero.val).bytes.length < HOSTNAME_MAX_LEN := by decide
  have hplain := h Unit (Host.plain .text) [.U, .L (.ofAscii "8.8.8.8")] rfl (givenTunnel_plain _ _)
  rw [moduleInit_plain _ (netHostPortParse_none hcolon hostZero 0) hlt] at hplain
  obtain ⟨host, port, hformed, -⟩ := hplain
  obtain ⟨first, d, heq, -⟩ := hformed.split
  rw [heq] at hcolon
  simp at hcolon

end Xsocks.Udp
