import Xsocks.Udp.Lemmas.Datagrams
import Xsocks.Udp.Lemmas.Session

/-!
This module contains which datagrams come through xs-tunnel and xs-server as they were sent. All buffers
have `NET_IOBUF_LEN` bytes, and what does not fit into them is discarded when it is read.
-/

namespace Xsocks.Udp

open Wp Run

variable {κ : Type}

def Fits (overhead : Nat) (hdr buf : List Byte) : Prop :=
  overhead + hdr.length + buf.length ≤ NET_IOBUF_LEN

instance (overhead : Nat) (hdr buf : List Byte) : Decidable (Fits overhead hdr buf) :=
  inferInstanceAs (Decidable (_ ≤ _))

theorem length_header (I : Inet) (uninit : Uninit) {host : CString} (hhost : host.bytes.length < 256) (port : Nat)
    : 0 < (encodeAddr I uninit host port).length ∧ (encodeAddr I uninit host port).length ≤ SOCKS5_ADDR_MAX_LEN := by
  rw [length_encodeAddr, encodedLen, SOCKS5_ADDR_MAX_LEN]
  split <;> omega

theorem length_message_le (I : Inet) (uninit : Uninit) {host : CString} (hhost : host.bytes.length < 256) (port : Nat)
    (x : List Byte)
    : (encodeAddr I uninit host port ++ x.take NET_IOBUF_LEN).length ≤ Crypto.DATAGRAM_MAX_LEN := by
  rw [List.length_append, List.length_take]
  exact Nat.add_le_add (length_header I uninit hhost port).2 (Nat.min_le_left _ _)

namespace Proto

variable {E : Env κ} {aead : Bool} {overhead : Nat}

theorem unwrap_of_fits (hC : E.crypto.Datagrams aead overhead) (hI : E.inet.Lawful) {uninit : Uninit}
    {host : CString} {port : Nat} (hhost : host.bytes.length < 256) {nonce x c : List Byte}
    (hc : E.crypto.encryptAll nonce (encodeAddr E.inet uninit host port ++ x.take NET_IOBUF_LEN) = some c)
    (hunforged : E.crypto.Unforged aead c) {uninit' : Uninit} {b buf : List Byte} {proto : Proto}
    (hunwrap : (shadowsocks b).unwrap E uninit' (c.take NET_IOBUF_LEN) = some (buf, proto))
    (hfits : aead = true ∨ Fits overhead (encodeAddr E.inet uninit host port) x)
    : buf = x := by
  have hpos := (length_header E.inet uninit hhost port).1
  have hmax := length_message_le E.inet uninit hhost port x
  have hlen := hC.length hmax hc
  rw [List.length_append, List.length_take] at hlen
  by_cases hle : c.length ≤ NET_IOBUF_LEN
  . have hx : x.take NET_IOBUF_LEN = x := List.take_of_length_le (by omega)
    rw [hx] at hc hmax
    have hnil : encodeAddr E.inet uninit host port ++ x ≠ [] := by
      intro hnil
      simp [(List.append_eq_nil_iff.mp hnil).1] at hpos
    obtain ⟨addr, haddr, hconsumed⟩ := parseAddr_encodeAddr_append hI uninit host port hhost x
    obtain ⟨P, addr', hP, haddr', rfl, -⟩ := unwrap_shadowsocks hunwrap
    rw [List.take_of_length_le hle, hC.inverse hmax hc hnil, Option.some.injEq] at hP
    subst hP
    rw [haddr, Option.some.injEq] at haddr'
    rw [← haddr', hconsumed, List.drop_left]
  . rcases hfits with haead | hfits
    . obtain ⟨P, -, hP, -⟩ := unwrap_shadowsocks hunwrap
      rw [hunforged haead (by omega)] at hP
      contradiction
    . rw [Fits] at hfits
      omega

theorem unwrap_of_not_fits (hC : E.crypto.Datagrams false overhead) (hI : E.inet.Lawful) {uninit : Uninit}
    {host : CString} {port : Nat} (hhost : host.bytes.length < 256) {nonce x c : List Byte}
    (hc : E.crypto.encryptAll nonce (encodeAddr E.inet uninit host port ++ x.take NET_IOBUF_LEN) = some c)
    (uninit' : Uninit) (b : List Byte)
    (hfits : ¬Fits overhead (encodeAddr E.inet uninit host port) x)
    : ∃ (n : Nat) (addr : Socks5Addr), n < x.length
        ∧ (shadowsocks b).unwrap E uninit' (c.take NET_IOBUF_LEN)
          = some (x.take n, shadowsocks (encodeAddr E.inet uninit' (.ofBuf addr.host) addr.port)) := by
  have hhdr := length_header E.inet uninit hhost port
  rw [SOCKS5_ADDR_MAX_LEN] at hhdr
  have hmax := length_message_le E.inet uninit hhost port x
  have hoverhead := hC.overhead_le
  have hN : NET_IOBUF_LEN = 16384 := rfl
  have hlen := hC.length hmax hc
  rw [List.length_append, List.length_take] at hlen
  rw [Fits] at hfits
  -- What is left of the payload.
  obtain ⟨n, hn⟩ : ∃ n, n = NET_IOBUF_LEN - overhead - (encodeAddr E.inet uninit host port).length := ⟨_, rfl⟩
  have hcut : (encodeAddr E.inet uninit host port ++ x.take NET_IOBUF_LEN).take (NET_IOBUF_LEN - overhead)
      = encodeAddr E.inet uninit host port ++ x.take n := by
    rw [List.take_append, List.take_of_length_le (by omega), List.take_take, ← hn, Nat.min_eq_left (by omega)]
  have hP := hC.cut_stream rfl hmax hc (by omega)
  rw [hcut] at hP
  obtain ⟨addr, haddr, hconsumed⟩ := parseAddr_encodeAddr_append hI uninit host port hhost (x.take n)
  refine ⟨n, addr, by omega, ?_⟩
  rw [unwrap, hP]
  dsimp only
  rw [haddr]
  dsimp only
  rw [hconsumed, List.drop_left]

end Proto

namespace UdpServer

def Reachable (E : Env κ) (srv : UdpServer) : Prop :=
  ∃ as, run (next E) (.new E) as = .ok srv

def traceOf (srv : UdpServer) (i : Nat) : List Io :=
  match srv.sessions[i]? with
  | none => []
  | some p => p.trace

def does (E : Env κ) (srv : UdpServer) (a : Event × Inputs) (i : Nat) : List Io :=
  ((srv.step E a).traceOf i).drop (srv.traceOf i).length

def Forwards (E : Env κ) (srv : UdpServer) (e : Event) (i : Nat) (s : Side) (d c : List Byte) : Prop :=
  ∃ inp sa sa', inp.recv = .datagram sa d ∧ .send s sa' c ∈ srv.does E (e, inp) i

end UdpServer

namespace Machine

variable {E : Env κ} {m m₁ m' : Machine} {s : Side}

theorem Reads.eq_of_plain {r : Option (List Byte)} (h : m.Reads E s r m₁) {sa : SockAddr}
    {data buf : List Byte} {proto : Proto} (hrecv : m.inp.recv = .datagram sa data) (hdata : data ≠ [])
    (hplain : (m.conn s).proto.unwrap E m.inp.uninit (data.take NET_IOBUF_LEN) = some (buf, proto))
    : r = some buf ∧ m₁ = (m.received s sa (data.take NET_IOBUF_LEN)).withProto s proto := by
  cases h with
  | error hrecv' => simp [hrecv] at hrecv'
  | empty hrecv' =>
    simp only [hrecv, RecvRes.datagram.injEq] at hrecv'
    exact absurd hrecv'.2 hdata
  | garbled hrecv' hdata' hplain' =>
    simp only [hrecv, RecvRes.datagram.injEq] at hrecv'
    obtain ⟨rfl, rfl⟩ := hrecv'
    simp [hplain] at hplain'
  | plain hrecv' hdata' hplain' =>
    simp only [hrecv, RecvRes.datagram.injEq] at hrecv'
    obtain ⟨rfl, rfl⟩ := hrecv'
    simp only [hplain, Option.some.injEq, Prod.mk.injEq] at hplain'
    obtain ⟨rfl, rfl⟩ := hplain'
    exact ⟨rfl, rfl⟩

theorem Served.mem_send_remote (htrace : m.trace = []) (h : m.Served E m') {sa : SockAddr} {c : List Byte}
    (hmem : .send .remote sa c ∈ m'.trace)
    : ∃ sa' data buf proto t, m.inp.recv = .datagram sa' data ∧ data ≠ []
        ∧ m.server.proto.unwrap E m.inp.uninit (data.take NET_IOBUF_LEN) = some (buf, proto)
        ∧ E.target m.inp.uninit proto = some t
        ∧ netUdpGetSockAddrEx E.ipv6First (m.inp.getaddrinfo t.host t.port) .unset = some sa
        ∧ t.proto.wrap E m.inp.nonce buf = some c := by
  have hreads : ∀ {r m₁}, m.Reads E .server r m₁ → .send .remote sa c ∉ m₁.trace := by
    intro r m₁ hread
    rcases hread.trace_server with heq | ⟨sa', data, heq⟩ <;> simp [heq, htrace]
  cases h with
  | unread hread => exact absurd (by simpa using hmem) (hreads hread)
  | uncreated hread hcreate => exact absurd (by simpa using hmem) (hreads hread)
  | @linked buf m₁ m₂ t sa' hread hcreate htarget hsa hwrite =>
    cases hwrite with
    | failed => exact absurd (by simpa [closed] using hmem) (hreads hread)
    | sent hsendto hwrap =>
      simp only [trace_log, trace_linkedTo, List.mem_append, List.mem_singleton, Io.send.injEq, true_and,
        hreads hread, false_or] at hmem
      rw [hmem.1, hmem.2]
      cases hread with
      | @plain sa data _ proto hrecv hdata hplain =>
        exact ⟨sa, data, buf, proto, t, hrecv, hdata, hplain, htarget, hsa, hwrap⟩

theorem Served.mem_send_of_plain (hnew : m.client = .new) (h : m.Served E m') {sa sa' : SockAddr}
    {data buf c : List Byte} {proto : Proto} {t : Target} (hrecv : m.inp.recv = .datagram sa data)
    (hdata : data ≠ [])
    (hplain : m.server.proto.unwrap E m.inp.uninit (data.take NET_IOBUF_LEN) = some (buf, proto))
    (hcreate : m.inp.create = true) (htarget : E.target m.inp.uninit proto = some t)
    (hsa : netUdpGetSockAddrEx E.ipv6First (m.inp.getaddrinfo t.host t.port) .unset = some sa')
    (hwrap : t.proto.wrap E m.inp.nonce buf = some c) (hsendto : m.inp.sendto = true)
    : .send .remote sa' c ∈ m'.trace ∧ m'.session.Waiting := by
  cases h with
  | unread hread =>
    have hnone := (hread.eq_of_plain hrecv hdata hplain).1
    contradiction
  | uncreated hread hcreate' => simp [hcreate] at hcreate'
  | @linked buf' m₁ m₂ t' sa'' hread hcreate' htarget' hsa' hwrite =>
    obtain ⟨hbuf, rfl⟩ := hread.eq_of_plain hrecv hdata hplain
    simp only [Option.some.injEq] at hbuf
    subst hbuf
    have htarget' : E.target m.inp.uninit proto = some t' := htarget'
    rw [htarget, Option.some.injEq] at htarget'
    subst htarget'
    rw [hsa, Option.some.injEq] at hsa'
    subst hsa'
    cases hwrite with
    | failed hfailed =>
      have hfailed : m.inp.sendto = false ∨ t.proto.wrap E m.inp.nonce buf' = none := hfailed
      simp [hsendto, hwrap] at hfailed
    | @sent c' hsendto' hwrap' =>
      have hwrap' : t.proto.wrap E m.inp.nonce buf' = some c' := hwrap'
      rw [hwrap, Option.some.injEq] at hwrap'
      subst hwrap'
      exact ⟨by simp, (hread.kept.alone hnew).client, rfl, rfl, lost_linkedTo⟩

theorem Answered.mem_new (h : m.Answered E m') {sa : SockAddr} {c : List Byte}
    (hmem : .send .server sa c ∈ m'.trace.drop m.trace.length)
    : ∃ sa' data buf proto, m.inp.recv = .datagram sa' data ∧ data ≠ []
        ∧ m.client.conn.proto.unwrap E m.inp.uninit (data.take NET_IOBUF_LEN) = some (buf, proto)
        ∧ m.server.proto.wrap E m.inp.nonce buf = some c := by
  cases h with
  | unread hread => cases hread <;> simp [closed] at hmem
  | @answered buf m₁ m₂ hread hwrite =>
    cases hread with
    | @plain sa' data _ proto hrecv hdata hplain =>
      cases hwrite with
      | failed => simp [closed] at hmem
      | @sent c' hsendto hwrap =>
        simp at hmem
        rw [hmem.2]
        exact ⟨sa', data, buf, proto, hrecv, hdata, hplain, hwrap⟩

theorem Answered.mem_new_of_plain (h : m.Answered E m') {sa : SockAddr} {data buf c : List Byte}
    {proto : Proto} (hrecv : m.inp.recv = .datagram sa data) (hdata : data ≠ [])
    (hplain : m.client.conn.proto.unwrap E m.inp.uninit (data.take NET_IOBUF_LEN) = some (buf, proto))
    (hwrap : m.server.proto.wrap E m.inp.nonce buf = some c) (hsendto : m.inp.sendto = true)
    : .send .server m.client.saClient c ∈ m'.trace.drop m.trace.length := by
  cases h with
  | unread hread =>
    have hnone := (hread.eq_of_plain hrecv hdata hplain).1
    contradiction
  | @answered buf' m₁ m₂ hread hwrite =>
    obtain ⟨hbuf, rfl⟩ := hread.eq_of_plain hrecv hdata hplain
    simp only [Option.some.injEq] at hbuf
    subst hbuf
    cases hwrite with
    | failed hfailed =>
      have hfailed : m.inp.sendto = false ∨ m.server.proto.wrap E m.inp.nonce buf' = none := hfailed
      simp [hsendto, hwrap] at hfailed
    | @sent c' hsendto' hwrap' =>
      have hwrap' : m.server.proto.wrap E m.inp.nonce buf' = some c' := hwrap'
      rw [hwrap, Option.some.injEq] at hwrap'
      subst hwrap'
      simp
      rfl

end Machine

namespace UdpServer

variable {E : Env κ} {srv srv' : UdpServer}

theorem traceOf_length : srv.traceOf srv.sessions.length = [] := by
  simp [traceOf]

theorem traceOf_add (m : Machine) : (srv.add m).traceOf srv.sessions.length = m.trace := by
  simp [traceOf, add, Machine.session]

theorem traceOf_eq {i : Nat} {p : Session} (hp : srv.sessions[i]? = some p) : srv.traceOf i = p.trace := by
  rw [traceOf, hp]

theorem traceOf_store {i : Nat} {p : Session} (hp : srv.sessions[i]? = some p) (m : Machine)
    : (srv.store i m).traceOf i = m.trace := by
  have hlt := (List.getElem?_eq_some_iff.mp hp).1
  simp [traceOf, store, hlt]

def works (d nonce : List Byte) (uninit : Uninit) : Inputs where
  recv := .datagram .unset d
  getaddrinfo _ _ := some [.unset]
  nonce := nonce
  uninit := uninit

def RequestSends (E : Env κ) (srv : UdpServer) (uninit : Uninit) (nonce d c : List Byte) : Prop :=
  ∃ buf proto t, srv.conn.proto.unwrap E uninit (d.take NET_IOBUF_LEN) = some (buf, proto)
    ∧ E.target uninit proto = some t ∧ t.proto.wrap E nonce buf = some c

theorem Ordered.served_of_plain (hI : E.inet.Lawful) (h : srv.Ordered E) {inp : Inputs} {sa sa' : SockAddr}
    {data buf c : List Byte} {proto : Proto} {t : Target} (hrecv : inp.recv = .datagram sa data)
    (hdata : data ≠ [])
    (hplain : srv.conn.proto.unwrap E inp.uninit (data.take NET_IOBUF_LEN) = some (buf, proto))
    (hcreate : inp.create = true) (htarget : E.target inp.uninit proto = some t)
    (hsa : netUdpGetSockAddrEx E.ipv6First (inp.getaddrinfo t.host t.port) .unset = some sa')
    (hwrap : t.proto.wrap E inp.nonce buf = some c) (hsendto : inp.sendto = true)
    : ∃ m, srv.step E (.request, inp) = srv.add m ∧ .send .remote sa' c ∈ m.trace ∧ m.session.Waiting := by
  have hstep := h.steps hI (.request, inp)
  revert hstep
  generalize srv.step E (.request, inp) = srv'
  intro hstep
  cases hstep with
  | idle hdisabled => exact absurd trivial hdisabled
  | reply ha => contradiction
  | timeout ha => contradiction
  | mishap ha hm =>
    cases hm with
    | unresolved hread hcreate' htarget' hsa' =>
      obtain ⟨-, rfl⟩ := hread.eq_of_plain hrecv hdata hplain
      have htarget' : E.target inp.uninit proto = some _ := htarget'
      rw [htarget, Option.some.injEq] at htarget'
      subst htarget'
      have hnone := hsa.symm.trans hsa'
      contradiction
  | request ha hm =>
    obtain ⟨hmem, hwaiting⟩ := hm.mem_send_of_plain rfl hrecv hdata hplain hcreate htarget hsa hwrap hsendto
    exact ⟨_, rfl, hmem, hwaiting⟩

theorem Ordered.mem_does_request (hI : E.inet.Lawful) (h : srv.Ordered E) {inp : Inputs} {sa : SockAddr}
    {c : List Byte} (hmem : .send .remote sa c ∈ srv.does E (.request, inp) srv.sessions.length)
    : ∃ sa' data buf proto t, inp.recv = .datagram sa' data ∧ data ≠ []
        ∧ srv.conn.proto.unwrap E inp.uninit (data.take NET_IOBUF_LEN) = some (buf, proto)
        ∧ E.target inp.uninit proto = some t
        ∧ netUdpGetSockAddrEx E.ipv6First (inp.getaddrinfo t.host t.port) .unset = some sa
        ∧ t.proto.wrap E inp.nonce buf = some c := by
  have hstep := h.steps hI (.request, inp)
  rw [does, traceOf_length, List.length_nil, List.drop_zero] at hmem
  revert hstep hmem
  generalize srv.step E (.request, inp) = srv'
  intro hmem hstep
  cases hstep with
  | idle hdisabled => exact absurd trivial hdisabled
  | reply ha => contradiction
  | timeout ha => contradiction
  | mishap ha hm =>
    have hmem : .send .remote sa c ∈ (srv.add _).traceOf srv.sessions.length := hmem
    rw [traceOf_add] at hmem
    exact absurd hmem (hm.not_mem_send rfl .remote sa c)
  | request ha hm =>
    rw [traceOf_add] at hmem
    exact hm.mem_send_remote rfl hmem

theorem Ordered.served_of_requestSends (hI : E.inet.Lawful) (h : srv.Ordered E) {uninit : Uninit}
    {nonce d c : List Byte} (hd : d ≠ []) (hsends : srv.RequestSends E uninit nonce d c)
    : ∃ m, srv.step E (.request, works d nonce uninit) = srv.add m ∧ .send .remote .unset c ∈ m.trace
        ∧ m.session.Waiting := by
  obtain ⟨buf, proto, t, hplain, htarget, hwrap⟩ := hsends
  exact h.served_of_plain hI rfl hd hplain rfl htarget rfl hwrap rfl

theorem Ordered.forwards_request_iff (hI : E.inet.Lawful) (h : srv.Ordered E) {d c : List Byte}
    : srv.Forwards E .request srv.sessions.length .remote d c
        ↔ d ≠ [] ∧ ∃ uninit nonce, srv.RequestSends E uninit nonce d c := by
  constructor
  . rintro ⟨inp, sa, sa', hrecv, hmem⟩
    obtain ⟨sa'', data, buf, proto, t, hrecv', hdata, hplain, htarget, -, hwrap⟩ := h.mem_does_request hI hmem
    rw [hrecv, RecvRes.datagram.injEq] at hrecv'
    rw [← hrecv'.2] at hdata hplain
    exact ⟨hdata, inp.uninit, inp.nonce, buf, proto, t, hplain, htarget, hwrap⟩
  . rintro ⟨hd, uninit, nonce, hsends⟩
    obtain ⟨m, hm, hmem, -⟩ := h.served_of_requestSends hI hd hsends
    refine ⟨works d nonce uninit, .unset, .unset, rfl, ?_⟩
    rw [does, traceOf_length, hm, traceOf_add]
    exact hmem

def ReplySends (E : Env κ) (srv : UdpServer) (p : Session) (d c : List Byte) : Prop :=
  ∃ uninit nonce buf proto, p.client.conn.proto.unwrap E uninit (d.take NET_IOBUF_LEN) = some (buf, proto)
    ∧ srv.conn.proto.wrap E nonce buf = some c

theorem Ordered.forwards_reply_iff (hI : E.inet.Lawful) (h : srv.Ordered E) {i : Nat} {d c : List Byte}
    : srv.Forwards E (.reply i) i .server d c
        ↔ d ≠ [] ∧ ∃ p, srv.sessions[i]? = some p ∧ p.Waiting ∧ srv.ReplySends E p d c := by
  constructor
  . rintro ⟨inp, sa, sa', hrecv, hmem⟩
    have hstep := h.steps hI (.reply i, inp)
    rw [does] at hmem
    revert hstep hmem
    generalize srv.step E (.reply i, inp) = srv'
    intro hmem hstep
    cases hstep with
    | idle => simp at hmem
    | request ha => contradiction
    | mishap ha => contradiction
    | timeout ha => contradiction
    | @reply _ p m ha hp hwaiting hm =>
      simp only [Event.reply.injEq] at ha
      subst ha
      rw [traceOf_eq hp, traceOf_store hp] at hmem
      obtain ⟨sa'', data, buf, proto, hrecv', hdata, hplain, hwrap⟩ := hm.mem_new hmem
      have hrecv' : inp.recv = .datagram sa'' data := hrecv'
      rw [hrecv, RecvRes.datagram.injEq] at hrecv'
      rw [← hrecv'.2] at hdata hplain
      exact ⟨hdata, p, hp, hwaiting, inp.uninit, inp.nonce, buf, proto, hplain, hwrap⟩
  . rintro ⟨hd, p, hp, hwaiting, uninit, nonce, buf, proto, hplain, hwrap⟩
    refine ⟨works d nonce uninit, .unset, p.client.saClient, rfl, ?_⟩
    have hstep := h.steps hI (.reply i, works d nonce uninit)
    rw [does]
    revert hstep
    generalize srv.step E (.reply i, works d nonce uninit) = srv'
    intro hstep
    cases hstep with
    | idle hdisabled => exact absurd ⟨p, hp, hwaiting.conn⟩ hdisabled
    | request ha => contradiction
    | mishap ha => contradiction
    | timeout ha => contradiction
    | @reply _ p' m ha hp' hwaiting' hm =>
      simp only [Event.reply.injEq] at ha
      subst ha
      rw [hp, Option.some.injEq] at hp'
      subst hp'
      rw [traceOf_eq hp, traceOf_store hp]
      exact hm.mem_new_of_plain rfl hd hplain hwrap rfl

end UdpServer

def Proto.Encoded (E : Env κ) (proto : Proto) : Prop :=
  ∃ uninit host port, host.bytes.length < 256 ∧ proto = .shadowsocks (encodeAddr E.inet uninit host port)

def Proto.Dials (E : Env κ) (proto : Proto) : Prop :=
  match E.app with
  | .xsServer => proto = .raw
  | .xsTunnel => ∃ addrbufDest, proto = .shadowsocks addrbufDest

structure Session.Joins (E : Env κ) (p : Session) (server : Proto) : Prop where
  remote : p.client.conn.proto.Dials E
  server : E.app = .xsServer → server.Encoded E

theorem Env.dials_target {E : Env κ} {uninit : Uninit} {proto : Proto} {t : Target}
    (h : E.target uninit proto = some t)
    : t.proto.Dials E := by
  unfold Proto.Dials
  cases happ : E.app with
  | xsServer => exact E.proto_target happ h
  | xsTunnel =>
    simp only [target, happ, Option.some.injEq] at h
    rw [← h]
    exact ⟨_, rfl⟩

namespace Machine

variable {E : Env κ} {m m₁ m' : Machine}

theorem Reads.encoded (happ : E.app = .xsServer) (hproto : m.server.proto.Serves E) {buf : List Byte}
    (h : m.Reads E .server (some buf) m₁)
    : m₁.server.proto.Encoded E := by
  obtain ⟨addrbufDest, haddrbuf⟩ := hproto.mp happ
  cases h with
  | @plain sa data _ proto hrecv hdata hplain =>
    have hplain : m.server.proto.unwrap E m.inp.uninit (data.take NET_IOBUF_LEN) = some (buf, proto) := hplain
    rw [haddrbuf] at hplain
    obtain ⟨P, addr, -, haddr, -, rfl⟩ := Proto.unwrap_shadowsocks hplain
    have hlen := CString.length_ofBuf_le addr.host
    have hhost := (parsed_of_parseAddr haddr).length_host
    exact ⟨m.inp.uninit, .ofBuf addr.host, addr.port, by omega, rfl⟩

theorem Reads.server_eq (h : m.Reads E .server none m₁) : m₁.server.proto = m.server.proto := by
  cases h <;> rfl

theorem Served.encoded (happ : E.app = .xsServer) (hproto : m.server.proto.Serves E) (h : m.Served E m')
    : m'.server.proto = m.server.proto ∨ m'.server.proto.Encoded E := by
  cases h with
  | unread hread => exact .inl hread.server_eq
  | uncreated hread hcreate =>
    have hencoded := hread.encoded happ hproto
    exact .inr hencoded
  | linked hread hcreate htarget hsa hwrite =>
    have hencoded := hread.encoded happ hproto
    cases hwrite <;> exact .inr hencoded

theorem Orphans.encoded (happ : E.app = .xsServer) (hproto : m.server.proto.Serves E) (h : m.Orphans E m')
    : m'.server.proto.Encoded E := by
  cases h with
  | unresolved hread hcreate htarget hsa =>
    have hencoded := hread.encoded happ hproto
    exact hencoded

theorem Served.joins (hproto : m.server.proto.Serves E) (hnew : m.client = .new) (h : m.Served E m')
    (hwaiting : m'.session.Waiting)
    : m'.session.Joins E m'.server.proto := by
  have hlive : ∀ {r m₁}, m.Reads E .server r m₁ → ¬m₁.dropped.session.Waiting := by
    intro r m₁ hread
    exact (over_dropped (by rw [hread.kept.conn, hnew])).not_waiting
  cases h with
  | unread hread => exact absurd hwaiting (hlive hread)
  | uncreated hread hcreate => exact absurd hwaiting (hlive hread)
  | linked hread hcreate htarget hsa hwrite =>
    cases hwrite with
    | failed => exact absurd hwaiting (over_freed lost_linkedTo).not_waiting
    | sent hsendto hwrap =>
      refine ⟨Env.dials_target htarget, ?_⟩
      intro happ
      have hencoded := hread.encoded happ hproto
      exact hencoded

end Machine

namespace UdpServer

variable {E : Env κ} {srv srv' : UdpServer}

structure Joined (E : Env κ) (srv : UdpServer) : Prop extends srv.Ordered E where
  joins : ∀ p ∈ srv.sessions, p.Waiting → p.Joins E srv.conn.proto

theorem joined_new : Joined E (.new E) where
  toOrdered := ordered_new
  joins := by simp [new]

theorem Joined.joins_store (h : srv.Joined E) {m : Machine} (hserver : m.server = srv.conn)
    (hover : m.session.Over) {i : Nat} (p : Session) (hp : p ∈ (srv.store i m).sessions) (hwaiting : p.Waiting)
    : p.Joins E (srv.store i m).conn.proto := by
  rcases mem_store hp with hp | rfl
  . show p.Joins E m.server.proto
    rw [hserver]
    exact h.joins p hp hwaiting
  . exact absurd hwaiting hover.not_waiting

theorem Joined.next (h : srv.Joined E) {a : Event × Inputs} (hstep : srv.Steps E a srv') : srv'.Joined E := by
  have hordered := h.toOrdered.next hstep
  cases hstep with
  | idle => exact h
  | @request m ha hm =>
    refine ⟨hordered, ?_⟩
    intro p hp hwaiting
    rcases mem_add hp with hp | rfl
    . obtain ⟨hremote, hserver⟩ := h.joins p hp hwaiting
      refine ⟨hremote, ?_⟩
      intro happ
      show m.server.proto.Encoded E
      rcases hm.encoded happ h.serves with heq | hencoded
      . rw [heq]
        exact hserver happ
      . exact hencoded
    . exact hm.joins h.serves rfl hwaiting
  | @mishap m ha hm =>
    refine ⟨hordered, ?_⟩
    intro p hp hwaiting
    rcases mem_add hp with hp | rfl
    . exact ⟨(h.joins p hp hwaiting).remote, fun happ => hm.encoded happ h.serves⟩
    . exact absurd hwaiting hm.over.not_waiting
  | reply ha hp hwaiting hm =>
    exact ⟨hordered, h.joins_store hm.server (hm.over hwaiting.lost)⟩
  | timeout ha hp hwaiting =>
    exact ⟨hordered, h.joins_store rfl (Machine.over_freed hwaiting.lost)⟩

theorem joined_run (hI : E.inet.Lawful) (h : srv.Reachable E) : srv.Joined E := by
  obtain ⟨as, hrun⟩ := h
  refine invariant_run (C := fun _ _ => True) ?_ joined_new (along_true _ _ as) hrun
  intro srv a srv' h _ heq
  rw [UdpServer.next, Except.ok.injEq] at heq
  rw [← heq]
  exact h.next (h.toOrdered.steps hI a)

theorem Ordered.conn_raw (h : srv.Ordered E) (happ : E.app = .xsTunnel) : srv.conn.proto = .raw := by
  cases hproto : srv.conn.proto with
  | raw => rfl
  | shadowsocks addrbufDest =>
    have hserver := h.serves.mpr ⟨_, hproto⟩
    rw [happ] at hserver
    contradiction

theorem Ordered.requestSends_tunnel_iff (h : srv.Ordered E) (happ : E.app = .xsTunnel) {uninit : Uninit}
    {nonce d c : List Byte}
    : srv.RequestSends E uninit nonce d c
        ↔ E.crypto.encryptAll nonce
            (encodeAddr E.inet uninit E.tunnelAddr.text E.tunnelPort ++ d.take NET_IOBUF_LEN) = some c := by
  rw [RequestSends, h.conn_raw happ]
  simp [Proto.unwrap, Env.target, happ, Proto.wrap]

theorem Ordered.requestSends_server_iff (hI : E.inet.Lawful) (h : srv.Ordered E) (happ : E.app = .xsServer)
    {uninit : Uninit} {nonce d c : List Byte}
    : srv.RequestSends E uninit nonce d c
        ↔ ∃ proto, srv.conn.proto.unwrap E uninit (d.take NET_IOBUF_LEN) = some (c, proto) := by
  constructor
  . rintro ⟨buf, proto, t, hplain, htarget, hwrap⟩
    rw [E.proto_target happ htarget, Proto.wrap, Option.some.injEq] at hwrap
    rw [← hwrap]
    exact ⟨proto, hplain⟩
  . rintro ⟨proto, hplain⟩
    obtain ⟨t, htarget⟩ := h.serves.exists_target hI hplain uninit
    refine ⟨c, proto, t, hplain, htarget, ?_⟩
    rw [E.proto_target happ htarget, Proto.wrap]

theorem Joined.replySends_server_iff (h : srv.Joined E) (happ : E.app = .xsServer) {p : Session}
    (hp : p ∈ srv.sessions) (hwaiting : p.Waiting) {hdr : List Byte} (hhdr : srv.conn.proto = .shadowsocks hdr)
    {d c : List Byte}
    : srv.ReplySends E p d c ↔ ∃ nonce, E.crypto.encryptAll nonce (hdr ++ d.take NET_IOBUF_LEN) = some c := by
  have hremote := (h.joins p hp hwaiting).remote
  simp only [Proto.Dials, happ] at hremote
  rw [ReplySends, hremote, hhdr]
  simp only [Proto.unwrap, Proto.wrap, Option.some.injEq, Prod.mk.injEq]
  constructor
  . rintro ⟨uninit, nonce, buf, proto, ⟨rfl, rfl⟩, hc⟩
    exact ⟨nonce, hc⟩
  . rintro ⟨nonce, hc⟩
    exact ⟨.zero, nonce, _, _, ⟨rfl, rfl⟩, hc⟩

theorem Ordered.replySends_tunnel_iff (h : srv.Ordered E) (happ : E.app = .xsTunnel) {p : Session}
    {d c : List Byte}
    : srv.ReplySends E p d c
        ↔ ∃ uninit proto, p.client.conn.proto.unwrap E uninit (d.take NET_IOBUF_LEN) = some (c, proto) := by
  rw [ReplySends, h.conn_raw happ]
  simp only [Proto.wrap, Option.some.injEq]
  constructor
  . rintro ⟨uninit, nonce, buf, proto, hplain, rfl⟩
    exact ⟨uninit, proto, hplain⟩
  . rintro ⟨uninit, proto, hplain⟩
    exact ⟨uninit, [], c, proto, hplain, rfl⟩

theorem reachable_new : Reachable E (.new E) :=
  ⟨[], rfl⟩

theorem exists_waiting (hI : E.inet.Lawful) (happ : E.app = .xsTunnel) {aead : Bool} {overhead : Nat}
    (hC : E.crypto.Datagrams aead overhead)
    : ∃ tun p, Reachable E tun ∧ tun.sessions[0]? = some p ∧ p.Waiting := by
  have hnew : Ordered E (.new E) := ordered_new
  obtain ⟨nonce, c, hc⟩ :=
    hC.encrypts (encodeAddr E.inet .zero E.tunnelAddr.text E.tunnelPort ++ [0].take NET_IOBUF_LEN)
      (length_message_le E.inet .zero E.tunnelAddr.length_lt E.tunnelPort [0])
  obtain ⟨m, hm, -, hwaiting⟩ :=
    hnew.served_of_requestSends hI (by simp) ((hnew.requestSends_tunnel_iff happ).mpr hc)
  exact ⟨_, m.session, ⟨[(.request, works [0] nonce .zero)], by rw [run, UdpServer.next, hm]; rfl⟩, rfl, hwaiting⟩

end UdpServer

/-- The datagram `d` of a client of xs-tunnel is sent to xs-server as `c`, and to the destination as `p`. -/
def Relayed (T S : Env κ) (d c p : List Byte) : Prop :=
  ∃ tun srv, UdpServer.Reachable T tun ∧ UdpServer.Reachable S srv
    ∧ tun.Forwards T .request tun.sessions.length .remote d c
    ∧ srv.Forwards S .request srv.sessions.length .remote c p

/-- The reply `r` to the client `j` of xs-server is sent to xs-tunnel as `c`, and to a client of it as `p`. -/
def Returned (T S : Env κ) (srv : UdpServer) (j : Nat) (r c p : List Byte) : Prop :=
  ∃ tun i, UdpServer.Reachable T tun ∧ srv.Forwards S (.reply j) j .server r c
    ∧ tun.Forwards T (.reply i) i .server c p

theorem ne_nil_of_not_fits {E : Env κ} {aead : Bool} {overhead : Nat} (hC : E.crypto.Datagrams aead overhead)
    {uninit : Uninit} {host : CString} {port : Nat} (hhost : host.bytes.length < 256) {x : List Byte}
    (hfits : ¬Fits overhead (encodeAddr E.inet uninit host port) x) {nonce c : List Byte}
    (hc : E.crypto.encryptAll nonce (encodeAddr E.inet uninit host port ++ x.take NET_IOBUF_LEN) = some c)
    : x ≠ [] ∧ c ≠ [] := by
  have hhdr := length_header E.inet uninit hhost port
  rw [SOCKS5_ADDR_MAX_LEN] at hhdr
  have hmax := length_message_le E.inet uninit hhost port x
  have hoverhead := hC.overhead_le
  have hN : NET_IOBUF_LEN = 16384 := rfl
  have hlen := hC.length hmax hc
  rw [List.length_append] at hlen
  rw [Fits] at hfits
  constructor
  . apply List.ne_nil_of_length_pos
    omega
  . apply List.ne_nil_of_length_pos
    omega

section

variable {T S : Env κ} {aead : Bool} {overhead : Nat}

theorem relayed_whole_iff (ht : T.app = .xsTunnel) (hs : S.app = .xsServer) (hcrypto : S.crypto = T.crypto)
    (hinet : S.inet = T.inet) (hI : T.inet.Lawful) (hC : T.crypto.Datagrams aead overhead) (d : List Byte)
    : (∀ c p, T.crypto.Unforged aead c → Relayed T S d c p → p = d)
        ↔ aead = true ∨ overhead + encodedLen T.tunnelAddr.text + d.length ≤ NET_IOBUF_LEN := by
  have hIs : S.inet.Lawful := by
    rw [hinet]
    exact hI
  have hCs : S.crypto.Datagrams aead overhead := by
    rw [hcrypto]
    exact hC
  have hfits : ∀ uninit, Fits overhead (encodeAddr S.inet uninit T.tunnelAddr.text T.tunnelPort) d
      ↔ overhead + encodedLen T.tunnelAddr.text + d.length ≤ NET_IOBUF_LEN := by
    intro uninit
    rw [Fits, length_encodeAddr]
  constructor
  . intro h
    cases aead with
    | true => exact .inl rfl
    | false =>
      right
      rw [← hfits .zero]
      apply Decidable.byContradiction
      intro hlong
      obtain ⟨nonce, c, hc⟩ := hCs.encrypts
        (encodeAddr S.inet .zero T.tunnelAddr.text T.tunnelPort ++ d.take NET_IOBUF_LEN)
        (length_message_le S.inet .zero T.tunnelAddr.length_lt T.tunnelPort d)
      obtain ⟨hd, hc'⟩ := ne_nil_of_not_fits hCs T.tunnelAddr.length_lt hlong hc
      have htun : UdpServer.Ordered T (.new T) := UdpServer.ordered_new
      have hsrv : UdpServer.Ordered S (.new S) := UdpServer.ordered_new
      obtain ⟨addrbufDest, haddrbuf⟩ := hsrv.serves.mp hs
      obtain ⟨n, addr, hn, hplain⟩ :=
        Proto.unwrap_of_not_fits hCs hIs T.tunnelAddr.length_lt hc .zero addrbufDest hlong
      have hrelayed : Relayed T S d c (d.take n) := by
        refine ⟨.new T, .new S, UdpServer.reachable_new, UdpServer.reachable_new, ?_, ?_⟩
        . rw [htun.forwards_request_iff hI]
          refine ⟨hd, .zero, nonce, ?_⟩
          rw [htun.requestSends_tunnel_iff ht, ← hcrypto, ← hinet]
          exact hc
        . rw [hsrv.forwards_request_iff hIs]
          refine ⟨hc', .zero, [], ?_⟩
          rw [hsrv.requestSends_server_iff hIs hs, haddrbuf]
          exact ⟨_, hplain⟩
      have hlen := congrArg List.length (h c _ (Crypto.unforged_false _ c) hrelayed)
      rw [List.length_take] at hlen
      omega
  . intro hcond c p hunforged hrelayed
    obtain ⟨tun, srv, htun, hsrv, hd, hc⟩ := hrelayed
    have htun := (UdpServer.joined_run hI htun).toOrdered
    have hsrv := (UdpServer.joined_run hIs hsrv).toOrdered
    rw [htun.forwards_request_iff hI] at hd
    rw [hsrv.forwards_request_iff hIs] at hc
    obtain ⟨-, uninit, nonce, hd⟩ := hd
    obtain ⟨-, uninit', nonce', hc⟩ := hc
    rw [htun.requestSends_tunnel_iff ht, ← hcrypto, ← hinet] at hd
    rw [hsrv.requestSends_server_iff hIs hs] at hc
    obtain ⟨proto, hplain⟩ := hc
    obtain ⟨addrbufDest, haddrbuf⟩ := hsrv.serves.mp hs
    rw [haddrbuf] at hplain
    rw [← hcrypto] at hunforged
    apply Proto.unwrap_of_fits hCs hIs T.tunnelAddr.length_lt hd hunforged hplain
    rw [hfits]
    exact hcond

theorem returned_whole_iff (ht : T.app = .xsTunnel) (hs : S.app = .xsServer) (hcrypto : S.crypto = T.crypto)
    (hinet : S.inet = T.inet) (hI : T.inet.Lawful) (hC : T.crypto.Datagrams aead overhead)
    {srv : UdpServer} (hsrv : srv.Reachable S) {j : Nat} {q : Session} (hq : srv.sessions[j]? = some q)
    (hwaiting : q.Waiting) {hdr : List Byte} (hhdr : srv.conn.proto = .shadowsocks hdr) (r : List Byte)
    : (∀ c p, T.crypto.Unforged aead c → Returned T S srv j r c p → p = r)
        ↔ aead = true ∨ overhead + hdr.length + r.length ≤ NET_IOBUF_LEN := by
  have hIs : S.inet.Lawful := by
    rw [hinet]
    exact hI
  have hCs : S.crypto.Datagrams aead overhead := by
    rw [hcrypto]
    exact hC
  have hsrv := UdpServer.joined_run hIs hsrv
  have hmem := List.mem_of_getElem? hq
  have hreply := fun d c => hsrv.replySends_server_iff hs hmem hwaiting hhdr (d := d) (c := c)
  -- A client waits, so there is an address in `addrbuf_dest`.
  obtain ⟨uninit, host, port, hhost, hencoded⟩ := (hsrv.joins q hmem hwaiting).server hs
  rw [hhdr, Proto.shadowsocks.injEq] at hencoded
  subst hencoded
  rw [hinet] at hreply
  constructor
  . intro h
    cases aead with
    | true => exact .inl rfl
    | false =>
      right
      rw [hinet]
      apply Decidable.byContradiction
      intro hlong
      obtain ⟨nonce, c, hc⟩ := hC.encrypts (encodeAddr T.inet uninit host port ++ r.take NET_IOBUF_LEN)
        (length_message_le T.inet uninit hhost port r)
      obtain ⟨hr, hc'⟩ := ne_nil_of_not_fits hC hhost hlong hc
      obtain ⟨tun, p', htun, hp', hwaiting'⟩ := UdpServer.exists_waiting hI ht hC
      have htun' := UdpServer.joined_run hI htun
      have hremote := (htun'.joins p' (List.mem_of_getElem? hp') hwaiting').remote
      simp only [Proto.Dials, ht] at hremote
      obtain ⟨addrbufDest, haddrbuf⟩ := hremote
      obtain ⟨n, addr, hn, hplain⟩ := Proto.unwrap_of_not_fits hC hI hhost hc .zero addrbufDest hlong
      have hreturned : Returned T S srv j r c (r.take n) := by
        refine ⟨tun, 0, htun, ?_, ?_⟩
        . rw [hsrv.toOrdered.forwards_reply_iff hIs]
          refine ⟨hr, q, hq, hwaiting, ?_⟩
          rw [hreply, hcrypto]
          exact ⟨nonce, hc⟩
        . rw [htun'.toOrdered.forwards_reply_iff hI]
          refine ⟨hc', p', hp', hwaiting', ?_⟩
          rw [htun'.toOrdered.replySends_tunnel_iff ht, haddrbuf]
          exact ⟨.zero, _, hplain⟩
      have hlen := congrArg List.length (h c _ (Crypto.unforged_false _ c) hreturned)
      rw [List.length_take] at hlen
      omega
  . intro hcond c p hunforged hreturned
    obtain ⟨tun, i, htun, hr, hc⟩ := hreturned
    have htun := UdpServer.joined_run hI htun
    rw [hsrv.toOrdered.forwards_reply_iff hIs] at hr
    rw [htun.toOrdered.forwards_reply_iff hI] at hc
    obtain ⟨-, q', hq', -, hr⟩ := hr
    rw [hq, Option.some.injEq] at hq'
    subst hq'
    rw [hreply, hcrypto] at hr
    obtain ⟨nonce, hr⟩ := hr
    obtain ⟨-, p', hp', hwaiting', hc⟩ := hc
    have hremote := (htun.joins p' (List.mem_of_getElem? hp') hwaiting').remote
    simp only [Proto.Dials, ht] at hremote
    obtain ⟨addrbufDest, haddrbuf⟩ := hremote
    rw [htun.toOrdered.replySends_tunnel_iff ht, haddrbuf] at hc
    obtain ⟨uninit', proto, hplain⟩ := hc
    rw [hinet] at hcond
    exact Proto.unwrap_of_fits hC hI hhost hr hunforged hplain hcond

/--
A datagram of a client of xs-tunnel is sent to the destination as it is or not at all, and so is a reply to
the client, if and only if the cipher is an AEAD cipher or what is sent between xs-tunnel and xs-server fits
into a buffer. Datagrams whose tag is forged by cutting them off are left aside.
-/
theorem datagrams_whole_iff (ht : T.app = .xsTunnel) (hs : S.app = .xsServer) (hcrypto : S.crypto = T.crypto)
    (hinet : S.inet = T.inet) (hI : T.inet.Lawful) (hC : T.crypto.Datagrams aead overhead)
    : (∀ d, (∀ c p, T.crypto.Unforged aead c → Relayed T S d c p → p = d)
          ↔ aead = true ∨ overhead + encodedLen T.tunnelAddr.text + d.length ≤ NET_IOBUF_LEN)
        ∧ ∀ srv j q hdr, srv.Reachable S → srv.sessions[j]? = some q → q.Waiting
          → srv.conn.proto = .shadowsocks hdr
          → ∀ r, (∀ c p, T.crypto.Unforged aead c → Returned T S srv j r c p → p = r)
              ↔ aead = true ∨ overhead + hdr.length + r.length ≤ NET_IOBUF_LEN :=
  ⟨relayed_whole_iff ht hs hcrypto hinet hI hC,
    fun _ _ _ _ hsrv hq hwaiting hhdr => returned_whole_iff ht hs hcrypto hinet hI hC hsrv hq hwaiting hhdr⟩

end

theorem datagrams_whole_short
    : let C : Crypto (CipherCtx Unit) := StreamCipher.datagrams .zero .zero
      let C' : Crypto (CipherCtx Unit) := AeadCipher.zero.datagrams
      (C.Datagrams false 8
          ∧ ∀ c p, Relayed (.default .xsTunnel C .text) (.default .xsServer C .text) [9] c p → p = [9])
        ∧ C'.Datagrams true 48
        ∧ ∀ d c p, C'.Unforged true c
          → Relayed (.default .xsTunnel C' .text) (.default .xsServer C' .text) d c p → p = d := by
  intro C C'
  have hC : C.Datagrams false 8 := StreamCipher.whole_zero.datagrams
  have hC' : C'.Datagrams true 48 := AeadCipher.whole_zero.datagrams
  have h := datagrams_whole_iff (T := .default .xsTunnel C .text) (S := .default .xsServer C .text)
    rfl rfl rfl rfl Inet.text_lawful hC
  have h' := datagrams_whole_iff (T := .default .xsTunnel C' .text) (S := .default .xsServer C' .text)
    rfl rfl rfl rfl Inet.text_lawful hC'
  have hshort := (h.1 [9]).mpr (.inr (by decide +kernel))
  exact ⟨⟨hC, fun c p => hshort c p (Crypto.unforged_false C c)⟩, hC', fun d => (h'.1 d).mpr (.inl rfl)⟩

/-- A datagram of 16384 bytes is forwarded, but without its last bytes. -/
theorem datagram_cut
    : ∃ c p, Relayed (.default .xsTunnel .stream .text) (.default .xsServer .stream .text)
          (List.replicate 16384 9) c p
        ∧ p ≠ List.replicate 16384 9 := by
  have h := relayed_whole_iff (T := .default .xsTunnel .stream .text) (S := .default .xsServer .stream .text)
    rfl rfl rfl rfl Inet.text_lawful Crypto.datagrams_stream (List.replicate 16384 9)
  have hlong : ¬(false = true ∨ 1 + encodedLen (Env.default .xsTunnel .stream .text).tunnelAddr.text
      + (List.replicate 16384 (9 : Byte)).length ≤ NET_IOBUF_LEN) := by
    rw [List.length_replicate]
    decide +kernel
  rw [← h] at hlong
  obtain ⟨c, hc⟩ := not_forall.mp hlong
  obtain ⟨p, hp⟩ := not_forall.mp hc
  obtain ⟨-, hp⟩ := Classical.not_imp.mp hp
  exact ⟨c, p, Classical.not_imp.mp hp⟩

end Xsocks.Udp
