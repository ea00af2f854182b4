import Xsocks.Tcp.Impl.Conn
import Xsocks.Tcp.Lemmas.Trace

/-!
This module contains the rules for the handlers of `tcp_socks5.c`. Each call takes the bytes of one
read for one message.
-/

namespace Xsocks

open Wp

variable {κ : Type}

def authAccepted (r : List Byte) : Bool :=
  socks5AuthReq (.ofList 0 r) r.length

def requested (I : Inet) (r : List Byte) : Option Socks5Addr :=
  socks5Req I (.ofList 0 r) r.length

section

variable {I : Inet} {r : List Byte} {b : Mem Byte}

theorem socks5AuthReq_eq (h : b.read 0 r.length = r)
    : socks5AuthReq b r.length = authAccepted r := by
  unfold authAccepted socks5AuthReq
  by_cases hlen : r.length < 2
  . dsimp only
    rw [if_pos (.inl (by omega)), if_pos (.inl (by omega))]
  . rw [Mem.eq_ofList_of_read h 0 (i := 0) (by omega), Mem.eq_ofList_of_read h 0 (i := 1) (by omega)]
    dsimp only
    split
    . rfl
    . next hn =>
      rw [not_or] at hn
      rw [Mem.read_congr 2 _ fun i hi => Mem.eq_ofList_of_read h 0 (by omega)]

theorem socks5Req_eq (h : b.read 0 r.length = r) : socks5Req I b r.length = requested I r := by
  unfold requested socks5Req
  by_cases hlen : r.length < 4
  . dsimp only
    rw [if_pos (.inl (by omega)), if_pos (.inl (by omega))]
  . rw [Mem.eq_ofList_of_read h 0 (i := 0) (by omega), Mem.eq_ofList_of_read h 0 (i := 1) (by omega)]
    have hcast : (r.length : Int) - 4 + 1 = (r.length - 3 : Nat) := by omega
    dsimp only
    have hrest : ∀ i, i < r.length - 3 → b.shift 3 i = (Mem.ofList 0 r).shift 3 i := by
      intro i hi
      exact Mem.eq_ofList_of_read h 0 (i := 3 + i) (by omega)
    rw [hcast, socks5AddrParse_congr hrest]

end

namespace Machine

def setSocks5 (m : Machine κ) (s : Side) (c : TcpSocks5) : Machine κ :=
  m.upd s fun conn => { conn with proto := .socks5 c }

variable {m : Machine κ} {s t : Side}

@[simp]
theorem alive_setSocks5 (c : TcpSocks5) : (m.setSocks5 s c).Alive ↔ m.Alive := by
  simp [setSocks5]

@[simp]
theorem proto_setSocks5 (c : TcpSocks5) : ((m.setSocks5 s c).conn s).proto = .socks5 c := by
  simp [setSocks5]

@[simp]
theorem inp_setSocks5 (c : TcpSocks5) : (m.setSocks5 s c).inp = m.inp := by
  rfl

end Machine

section

variable {m : Machine κ} {s : Side} {F : Fault → Machine κ → Prop} {c : TcpSocks5} {E : Env κ}
  {Q : Int → Machine κ → Prop}

theorem wp_derefSocks5 (hs : m.Usable s) (hc : (m.conn s).proto = .socks5 c)
    (Q : TcpSocks5 → Machine κ → Prop)
    : wp (derefSocks5 s) Q F m ↔ Q c m := by
  simp [derefSocks5, hs, hc]

theorem wp_assignSocks5 (hs : m.Usable s) (hc : (m.conn s).proto = .socks5 c)
    (f : TcpSocks5 → TcpSocks5) (Q : Unit → Machine κ → Prop)
    : wp (assignSocks5 s f) Q F m ↔ Q () (m.setSocks5 s (f c)) := by
  rw [assignSocks5, wp_assign hs]
  have : (m.upd s fun conn => conn.updSocks5 f) = m.setSocks5 s (f c) := by
    simp [Machine.upd, Machine.setSocks5, TcpConn.updSocks5, hc]
  rw [this]

def MessagePost (E : Env κ) (s : Side) (c : TcpSocks5) (data : List Byte)
    (Q : Int → Machine κ → Prop) (m : Machine κ) : Prop :=
  match c.state with
  | .INIT =>
    if authAccepted data then Q data.length m
    else Q ERR ((m.withErr s .ERROR_SOCKS5_AUTH).closed s)
  | .HANDSHAKE =>
    match requested E.inet data with
    | none => Q ERR ((m.withErr s .ERROR_SOCKS5_HANDSHAKE).closed s)
    | some addr =>
      let addrbufDest := encodeAddr E.inet m.inp.uninit (.ofBuf addr.host) addr.port
      Q data.length (m.setSocks5 s { c with addrbufDest := .created addrbufDest })
  | .STREAM => Q data.length m

theorem wp_tcpSocks5ConnRead (h : m.Alive) (hs : m.Usable s) (hc : (m.conn s).proto = .socks5 c)
    (hflags : c.flags = .SERVER) (off : Nat) (bufLen : Int)
    : wp (tcpSocks5ConnRead E s off bufLen) Q F m
        ↔
      let res := m.netRead bufLen
      let m := m.received s off res.data
      if res.nread = ERR then Q ERR ((m.withErr s .TCP_ERROR_READ).closed s)
      else if res.nread = 0 ∧ res.closed = true then
        Q ERR ((m.withErr s .TCP_ERROR_CLOSED).closed s)
      else if res.nread ≤ 0 then Q res.nread (m.restarted s)
      else MessagePost E s c res.data Q (m.restarted s) := by
  rw [tcpSocks5ConnRead, wp_bind, wp_derefSocks5 hs hc, hflags, if_neg (by simp), wp_bind,
    wp_tcpRead h hs]
  dsimp only
  rcases netTcpRead_cases bufLen (m.inp.reads.headD []) with heq | heq | heq | heq
  . rw [Machine.netRead, heq]
    simp [ERR]
  . rw [Machine.netRead, heq]
    simp [ERR]
  . rw [Machine.netRead, heq]
    simp [ERR]
  . obtain ⟨data, hne, hle, heq⟩ := heq
    have hpos : 0 < data.length := List.length_pos_iff.mpr hne
    have hs' : ((m.received s off data).restarted s).Usable s := by simpa using hs
    have hc' : (((m.received s off data).restarted s).conn s).proto = .socks5 c := by
      simpa [Machine.restarted, Machine.received] using hc
    have hrbuf : ((((m.received s off data).restarted s).conn s).rbuf.shift off).read 0 data.length
        = data := by
      simp [Machine.received, Machine.restarted]
    rw [Machine.netRead, heq]
    dsimp only
    rw [if_neg (by rw [ERR]; omega), if_neg (by simp), if_neg (by omega), if_neg (by rw [ERR]; omega),
      if_neg (by simp), if_neg (by omega), wp_bind, wp_deref hs', wp_bind, wp_derefSocks5 hs' hc',
      MessagePost]
    cases hstate : c.state with
    | INIT =>
      dsimp only
      rw [socks5AuthReq_eq hrbuf]
      split
      . simp
      . simp [h, hs]
    | HANDSHAKE =>
      dsimp only
      rw [socks5Req_eq hrbuf]
      cases requested E.inet data with
      | none => simp [h, hs]
      | some addr =>
        dsimp only
        rw [wp_bind, tcpSocks5ConnInit, wp_bind, wp_get, socks5AddrInit_eq, wp_assignSocks5 hs' hc',
          wp_pure, hstate]
    | STREAM => simp

theorem wp_reply_all (h : m.Alive) (hs : m.Usable s) (hc : (m.conn s).proto = .socks5 c)
    {room : Nat} (hwrites : m.inp.writes.headD [] = [.count room]) {resp : List Byte}
    (hroom : resp.length ≤ room) (next : Socks5State)
    : wp (tcpSocks5ConnWrite.reply s resp next) Q F m
        ↔ Q resp.length ((m.sent s resp).setSocks5 s { c with state := next }) := by
  rw [tcpSocks5ConnWrite.reply, wp_bind, wp_tcpWrite_all h hs hwrites hroom, if_neg (by omega),
    if_neg (by simp), wp_bind, wp_assignSocks5 (by simpa using hs) (by simpa [Machine.sent] using hc),
    wp_pure]

end

end Xsocks
