import Xsocks.Tcp.Lemmas.Encrypts
import Xsocks.Tcp.Lemmas.Routing

/-!
This module contains the rest of a run of xs-local: the remote that is made after the handshake, and
the data that are relayed to it.
-/

namespace Xsocks

open Wp Run

variable {κ : Type}

def Io.piped (trace : List Io) : List Byte :=
  Io.received .client (trace.dropWhile (· ≠ .pipe .client .remote))

theorem Io.piped_of_not_mem {tr : List Io} (h : .pipe .client .remote ∉ tr) : Io.piped tr = [] := by
  rw [Io.piped, List.dropWhile_eq_nil_iff.mpr]
  . rfl
  . intro io hio
    simp only [ne_eq, decide_not, Bool.not_eq_eq_eq_not, Bool.not_true, decide_eq_false_iff_not]
    intro heq
    rw [heq] at hio
    exact h hio

theorem Io.piped_pipe (tr ios : List Io)
    : Io.piped (tr ++ .pipe .client .remote :: ios) = Io.piped tr ++ Io.received .client ios := by
  induction tr with
  | nil => simp [Io.piped, Io.dataIn]
  | cons io tr ih =>
    by_cases heq : io = .pipe .client .remote
    . simp [Io.piped, heq, Io.dataIn]
    . simpa [Io.piped, heq] using ih

namespace Local

def direct (E : Env κ) (dest : List Byte) : Bool :=
  match parseAddr E.inet dest with
  | some addr => E.direct addr.atyp (.ofBuf addr.host)
  | none => false

inductive Sink (C : Crypto κ) (eCtx₀ : κ) (direct : Bool) : Proto κ → Prop where
  | raw (way : direct = true) : Sink C eCtx₀ direct .raw
  | shadowsocks (c : TcpShadowsocks κ) (way : direct = false) (tmpBuf : c.tmpBuf = [])
      (tmpBufOff : c.tmpBufOff = 0)
      (header : c.state = .INIT → c.addrbufDest.length ≤ SOCKS5_ADDR_MAX_LEN)
      (reached : C.Reached eCtx₀ c.eCtx)
      : Sink C eCtx₀ direct (.shadowsocks c)

structure Wrote (P : Proto κ → Prop) (m m' : Machine κ) : Prop where
  alive : m'.Alive
  remote : m'.remote = m.remote
  client : m'.conn .client = m.conn .client
  conn : ∃ proto, m'.conn .remote = { m.conn .remote with proto := proto } ∧ P proto
  trace : ∃ ios, m'.trace = m.trace ++ ios ∧ Io.received .client ios = []

section

variable {m : Machine κ} {F : Fault → Machine κ → Prop} {E : Env κ} {eCtx₀ : κ} {limit room : Nat}
  {direct : Bool} {buf : List Byte} {c : TcpShadowsocks κ}

theorem wp_stream_all (h : m.Alive) (hs : m.Usable .remote)
    (hc : (m.conn .remote).proto = .shadowsocks c) (hsink : Sink E.crypto eCtx₀ direct (.shadowsocks c))
    (hstate : c.state ≠ .INIT) (hencrypts : E.crypto.Encrypts eCtx₀ limit room)
    (hwrites : m.inp.writes.headD [] = [.count room]) (hbuf : buf.length ≤ limit)
    {Q : Int → Machine κ → Prop}
    (hQ : ∀ (n : Nat) c' sends inp, buf.length ≤ n → Sink E.crypto eCtx₀ direct (.shadowsocks c')
      → Q n (m.wrote .remote c' sends inp))
    : wp (tcpShadowsocksConnWrite.stream E .remote buf buf.length) Q F m := by
  cases hsink with
  | shadowsocks _ way tmpBuf tmpBufOff _ reached =>
    obtain ⟨ct, eCtx, heq, hle, hroom⟩ := hencrypts.takes reached hbuf
    rw [tcpShadowsocksConnWrite.stream, wp_bind, wp_derefShadowsocks hs hc, tmpBuf, List.length_nil,
      if_pos rfl, if_neg (by omega), Int.toNat_natCast, List.take_length, heq]
    dsimp only
    rw [wp_bind, wp_assignShadowsocks hs hc, tcpShadowsocksConnWrite.flush, wp_bind,
      wp_derefShadowsocks (by simpa using hs) (Machine.proto_setShadowsocks _)]
    dsimp only
    rw [tmpBufOff, List.drop_zero, Int.natCast_zero, Int.sub_zero, wp_bind,
      wp_tcpWrite_all (by simpa using h) (by simpa using hs) (by simpa using hwrites) hroom, if_pos rfl,
      Machine.sent_eq_wrote (Machine.proto_setShadowsocks _), Machine.wrote_setShadowsocks, wp_bind,
      wp_assignShadowsocks (by simpa using hs) (Machine.proto_wrote _ _ _), wp_pure,
      Machine.setShadowsocks_wrote]
    exact hQ _ _ _ _ hle
      (.shadowsocks _ way rfl rfl (fun hinit => absurd hinit hstate) (reached.encrypt heq))

theorem wp_tcpShadowsocksConnWrite_all (h : m.Alive) (hs : m.Usable .remote)
    (hc : (m.conn .remote).proto = .shadowsocks c) (hsink : Sink E.crypto eCtx₀ direct (.shadowsocks c))
    (hencrypts : E.crypto.Encrypts eCtx₀ limit room)
    (hwrites : m.inp.writes = [[.count room], [.count room]]) (hbuf : buf.length ≤ limit)
    {Q : Int → Machine κ → Prop}
    (hQ : ∀ (n : Nat) c' sends inp, buf.length ≤ n → Sink E.crypto eCtx₀ direct (.shadowsocks c')
      → Q n (m.wrote .remote c' sends inp))
    : wp (tcpShadowsocksConnWrite E .remote buf buf.length) Q F m := by
  have hsink' := hsink
  cases hsink with
  | shadowsocks _ way tmpBuf tmpBufOff header reached =>
    rw [tcpShadowsocksConnWrite, wp_bind, wp_derefShadowsocks hs hc]
    cases hstate : c.state with
    | INIT =>
      obtain ⟨ct, eCtx, heq, -, hroom⟩ :=
        hencrypts.takes reached (Nat.le_trans (header hstate) hencrypts.header)
      dsimp only
      rw [heq]
      dsimp only
      rw [wp_bind, wp_assignShadowsocks hs hc, wp_bind,
        wp_tcpWrite_all (by simpa using h) (by simpa using hs) (by simp [hwrites]) hroom,
        if_neg (by omega), if_neg (by simp),
        Machine.sent_eq_wrote (Machine.proto_setShadowsocks _), Machine.wrote_setShadowsocks, wp_bind,
        wp_assignShadowsocks (by simpa using hs) (Machine.proto_wrote _ _ _),
        Machine.setShadowsocks_wrote]
      apply wp_stream_all (by simpa using h) (by simpa using hs) (Machine.proto_wrote _ _ _)
      case hsink => exact .shadowsocks _ way tmpBuf tmpBufOff (by simp) (reached.encrypt heq)
      case hstate => simp
      case hencrypts => exact hencrypts
      case hwrites => simp [Machine.popWrites, hwrites]
      case hbuf => exact hbuf
      case hQ =>
        intro n c' sends inp hn hsink
        rw [Machine.wrote_wrote]
        exact hQ n c' _ inp hn hsink
    | HANDSHAKE =>
      dsimp only
      rw [wp_bind, wp_assignShadowsocks hs hc]
      apply wp_stream_all (by simpa using h) (by simpa using hs) (Machine.proto_setShadowsocks _)
      case hsink => exact .shadowsocks _ way tmpBuf tmpBufOff (by simp) reached
      case hstate => simp
      case hencrypts => exact hencrypts
      case hwrites => simp [hwrites]
      case hbuf => exact hbuf
      case hQ =>
        intro n c' sends inp hn hsink
        rw [Machine.wrote_setShadowsocks]
        exact hQ n c' _ inp hn hsink
    | STREAM =>
      exact wp_stream_all h hs hc hsink' (by simp [hstate]) hencrypts (by simp [hwrites]) hbuf hQ

theorem wp_connWrite_sink (h : m.Alive) (hs : m.Usable .remote)
    (hsink : Sink E.crypto eCtx₀ direct (m.conn .remote).proto)
    (hencrypts : E.crypto.Encrypts eCtx₀ limit room)
    (hwrites : m.inp.writes = [[.count room], [.count room]]) (hroom : buf.length ≤ room)
    (hbuf : direct = true ∨ buf.length ≤ limit) {Q : Int → Machine κ → Prop}
    (hQ : ∀ (n : Nat) m', buf.length ≤ n → Wrote (Sink E.crypto eCtx₀ direct) m m' → Q n m')
    : wp (connWrite E .remote buf buf.length) Q F m := by
  cases hproto : (m.conn .remote).proto with
  | raw =>
    rw [hproto] at hsink
    rw [wp_connWrite_all h hs hproto (by simp [hwrites]) hroom]
    apply hQ _ _ (Nat.le_refl _)
    refine ⟨by simpa using h, rfl, rfl, ⟨.raw, ?_, hsink⟩,
      ⟨[.write .remote buf.length, .send .remote buf], by simp [Machine.sent], by simp [Io.dataIn]⟩⟩
    rw [← hproto]
    rfl
  | shadowsocks c =>
    rw [hproto] at hsink
    have hbuf : buf.length ≤ limit := by
      cases hsink with
      | shadowsocks _ way => simpa [way] using hbuf
    rw [connWrite, wp_bind, wp_deref hs, wp_bind, wp_logIo, hproto]
    dsimp only
    apply wp_tcpShadowsocksConnWrite_all (m := m.log (.write .remote buf.length)) (by simpa using h)
      (by simpa using hs) hproto hsink hencrypts hwrites hbuf
    intro n c' sends inp hn hsink
    apply hQ _ _ hn
    refine ⟨by simpa using h, rfl, ?_, ⟨.shadowsocks c', ?_, hsink⟩,
      ⟨.write .remote buf.length :: sends.map (.send .remote), by simp, ?_⟩⟩
    . simp [Machine.wrote, Machine.setShadowsocks]
    . simp [Machine.wrote, Machine.setShadowsocks]
    . rw [Io.received_cons, Io.received_sends]
      simp [Io.dataIn]
  | socks5 c =>
    rw [hproto] at hsink
    cases hsink

theorem wp_connWrite_refused (h : m.Alive) (hr : m.remote = true)
    (hsink : Sink E.crypto eCtx₀ false (m.conn .remote).proto)
    (hencrypts : E.crypto.Encrypts eCtx₀ limit room) (hlt : limit < buf.length)
    (hlen : buf.length ≤ NET_IOBUF_LEN) {Q : Int → Machine κ → Prop} (hQ : ∀ m', m'.Dead → Q ERR m')
    : wp (connWrite E .remote buf buf.length) Q (fun _ _ => True) m := by
  have hs := h.remote hr
  cases hproto : (m.conn .remote).proto with
  | raw =>
    rw [hproto] at hsink
    cases hsink
    contradiction
  | shadowsocks c =>
    rw [hproto] at hsink
    cases hsink with
    | shadowsocks _ way tmpBuf tmpBufOff header reached =>
      rw [connWrite, wp_bind, wp_deref hs, wp_bind, wp_logIo, hproto]
      dsimp only
      apply wp_tcpShadowsocksConnWrite (m := m.log (.write .remote buf.length)) (by simpa using h)
        (by simpa using hs) hproto
      case hlen => exact fun _ _ _ _ _ _ => trivial
      case hnull => exact .inl hr
      case hQ =>
        rw [Int.toNat_natCast, List.take_length]
        constructor
        case failed =>
          intro sends c' inp err _ _
          apply hQ
          apply Machine.dead_closed
          intro hremote
          simp [Machine.withErr, hr] at hremote
        case written =>
          intro n sends c' inp hwritten
          -- There is nothing to send, since nothing is left and nothing could be encrypted.
          cases hwritten with
          | intro sends c₁ c₂ opened staged =>
            have hopened : c₁.tmpBuf = [] ∧ E.crypto.Reached eCtx₀ c₁.eCtx := by
              cases opened with
              | INIT _ h eCtx heq => exact ⟨tmpBuf, reached.encrypt heq⟩
              | HANDSHAKE => exact ⟨tmpBuf, reached⟩
              | STREAM => exact ⟨tmpBuf, reached⟩
            cases staged with
            | fresh _ ct eCtx heq =>
              rw [hencrypts.refuses hopened.2 hlt hlen] at heq
              contradiction
            | left hne => exact absurd hopened.1 hne
  | socks5 c =>
    rw [hproto] at hsink
    cases hsink

end

structure Connecting (P : Proto κ → Prop) (m : Machine κ) (dest : List Byte) : Prop where
  alive : m.Alive
  remote : m.remote = true
  proto : (m.conn .client).proto = .socks5 ⟨.SERVER, .STREAM, .created dest⟩
  connected : (m.conn .client).connected = true
  rbufLen : (m.conn .client).rbufLen = NET_IOBUF_LEN
  rbufOff : (m.conn .client).rbufOff = 0
  sink : P (m.conn .remote).proto
  connecting : (m.conn .remote).connected = false
  we : (m.conn .remote).we = true
  piped : (m.conn .remote).piped = false
  wbuf : (m.conn .remote).wbuf = none
  unpiped : .pipe .client .remote ∉ m.trace

structure Established (P : Proto κ → Prop) (m : Machine κ) (dest data : List Byte) : Prop where
  alive : m.Alive
  remote : m.remote = true
  proto : (m.conn .client).proto = .socks5 ⟨.SERVER, .STREAM, .created dest⟩
  connected : (m.conn .client).connected = true
  rbufLen : (m.conn .client).rbufLen = NET_IOBUF_LEN
  rbufOff : (m.conn .client).rbufOff = 0
  re : (m.conn .client).re = true
  sink : P (m.conn .remote).proto
  wbuf : (m.conn .remote).wbuf = none
  data : Io.piped m.trace = data

theorem Connecting.withInp {P : Proto κ → Prop} {m : Machine κ} {dest : List Byte}
    (h : Connecting P m dest) (inp : Inputs κ)
    : Connecting P (m.withInp inp) dest :=
  ⟨by simpa using h.alive, h.remote, h.proto, h.connected, h.rbufLen, h.rbufOff, h.sink, h.connecting,
    h.we, h.piped, h.wbuf, h.unpiped⟩

theorem Established.withInp {P : Proto κ → Prop} {m : Machine κ} {dest data : List Byte}
    (h : Established P m dest data) (inp : Inputs κ)
    : Established P (m.withInp inp) dest data :=
  ⟨by simpa using h.alive, h.remote, h.proto, h.connected, h.rbufLen, h.rbufOff, h.re, h.sink, h.wbuf,
    h.data⟩

section

variable {P : Proto κ → Prop} {m : Machine κ} {F : Fault → Machine κ → Prop} {E : Env κ} {eCtx₀ : κ}
  {limit room : Nat} {dest : List Byte} {inp : Inputs κ} {uninit : Uninit}

theorem Greeting.connecting (h : Greeting m ⟨.SERVER, .STREAM, .created dest⟩) (type : ConnType)
    (host : CString) (port : Nat) (hsink : P (Proto.new type m.inp))
    : Connecting P (m.dialled E type host port) dest := by
  constructor
  case alive => exact Machine.alive_dialled h.alive.client
  case remote => rfl
  case proto =>
    rw [Machine.conn_dialled_client]
    exact h.proto
  case connected =>
    rw [Machine.conn_dialled_client]
    exact h.connected
  case rbufLen =>
    rw [Machine.conn_dialled_client]
    exact h.rbufLen
  case rbufOff => rw [Machine.rbufOff_dialled, h.rbufOff]
  case sink =>
    rw [Machine.conn_dialled_remote]
    exact hsink
  case unpiped =>
    rw [Machine.trace_dialled]
    simpa using h.unpiped
  all_goals
    rw [Machine.conn_dialled_remote]
    rfl

theorem Connecting.setShadowsocks (h : Connecting P m dest) {c : TcpShadowsocks κ}
    (hsink : P (.shadowsocks c))
    : Connecting P (m.setShadowsocks .remote c) dest := by
  constructor
  case alive => simpa using h.alive
  case remote => exact h.remote
  case unpiped => exact h.unpiped
  case sink =>
    rw [Machine.proto_setShadowsocks]
    exact hsink
  all_goals
    simp [Machine.setShadowsocks, h.proto, h.connected, h.rbufLen, h.rbufOff, h.connecting, h.we,
      h.piped, h.wbuf]

theorem wp_newRemote (h : Greeting m ⟨.SERVER, .STREAM, .created dest⟩) {addr : Socks5Addr}
    (haddr : parseAddr E.inet dest = some addr) (hconnect : m.inp.nonBlockConnect = true)
    : wp (newRemote E (.created dest))
        (fun _ m' => Connecting (Sink E.crypto m.inp.ctx.1 (direct E dest)) m' dest) F m := by
  have hclient := h.alive.client
  have hdirect : direct E dest = E.direct addr.atyp (.ofBuf addr.host) := by rw [direct, haddr]
  rw [newRemote, wp_bind, wp_parseDest, haddr]
  dsimp only
  rw [wp_bind, bypass_eq_direct, wp_pure, ← hdirect]
  cases hway : direct E dest with
  | true =>
    rw [if_pos rfl, wp_bind, wp_tcpRemoteNew hclient, hconnect, if_pos rfl, if_neg (by simp), wp_pure]
    exact h.connecting .RAW _ _ (.raw rfl)
  | false =>
    have hconnecting := h.connecting (P := Sink E.crypto m.inp.ctx.1 false) (E := E) .SHADOWSOCKS
      E.remoteAddr E.remotePort
      (.shadowsocks _ rfl rfl rfl (fun _ => Nat.zero_le _) Crypto.reached_refl)
    rw [if_neg (by simp), wp_bind, wp_tcpRemoteNew hclient, hconnect, if_pos rfl, if_pos rfl,
      tcpShadowsocksConnInit, wp_bind, wp_get, socks5AddrInit_eq]
    dsimp only
    rw [wp_assignShadowsocks (hconnecting.alive.remote rfl) (by rw [Machine.conn_dialled_remote]; rfl)]
    apply hconnecting.setShadowsocks
    refine .shadowsocks _ rfl rfl rfl (fun _ => ?_) Crypto.reached_refl
    have hle := CString.length_ofBuf_le addr.host
    have hlt := (parsed_of_parseAddr haddr).length_host
    dsimp only
    rw [length_encodeAddr, encodedLen, SOCKS5_ADDR_MAX_LEN]
    split <;> omega

variable (room inp uninit) in
theorem pairStep_newRemote (happ : E.app = .xsLocal)
    (h : Greeting m ⟨.SERVER, .STREAM, .created dest⟩) {addr : Socks5Addr}
    (haddr : parseAddr E.inet dest = some addr) (seg : List Byte)
    : ∃ m', pairStep E m ((.client, .read), arrival inp uninit room seg) = .ok m'
        ∧ Connecting (Sink E.crypto inp.ctx.1 (direct E dest)) m' dest := by
  have hinp := h.withInp (arrival inp uninit room seg)
  have hclient := hinp.alive.client
  apply pairStep_ok (by simp [TcpConn.registered, h.re])
  rw [wp_handler happ hclient h.connected, Local.tcpClientOnRead, wp_bind, wp_deref hclient, wp_bind,
    wp_derefSocks5 hclient hinp.proto, if_neg (by simp), wp_bind, wp_get, hinp.remote, if_pos rfl]
  exact wp_newRemote hinp haddr rfl

variable (room inp uninit) in
theorem pairStep_connected (happ : E.app = .xsLocal) (h : Connecting P m dest) (seg : List Byte)
    : ∃ m', pairStep E m ((.remote, .write), arrival inp uninit room seg) = .ok m'
        ∧ Established P m' dest [] := by
  have hinp := h.withInp (arrival inp uninit room seg)
  have hremote := hinp.alive.remote hinp.remote
  apply pairStep_ok (by simp [TcpConn.registered, h.we])
  apply wp_tcpConnWriteHandler_connected hremote hinp.connecting rfl
  generalize m.withInp (arrival inp uninit room seg) = m at *
  have halive : m.connected.Alive := by simpa [Machine.connected] using hinp.alive
  have hr : m.connected.remote = true := hinp.remote
  rw [tcpRemoteOnConnect, wp_bind, wp_deref (halive.remote hr), wp_bind, wp_deref halive.client,
    if_neg (by simp [OK, ERR]), happ]
  dsimp only
  rw [wp_preparePipe halive hr]
  refine ⟨by simpa [Machine.prepared] using halive.remote hr, ?_, ⟨?_, hinp.remote, ?_, ?_, ?_, ?_, ?_,
    ?_, ?_, ?_⟩⟩
  case refine_10 =>
    apply Io.piped_of_not_mem
    simpa [Machine.prepared, Machine.connected] using hinp.unpiped
  all_goals
    simp [Machine.prepared, Machine.connected, hinp.piped, hinp.alive, hinp.proto, hinp.connected,
      hinp.rbufLen, hinp.rbufOff, hinp.sink, hinp.wbuf]

theorem Established.piped {m m' m'' : Machine κ} {dest data seg : List Byte}
    (h : Established P m dest data) (ho : Machine.Offered .client .remote m m' seg)
    (hw : Wrote P m' m'') {n : Nat} (hn : seg.length ≤ n)
    : Established P (m''.piped .client .remote n) dest (data ++ seg) := by
  obtain ⟨proto, hconn, hsink⟩ := hw.conn
  obtain ⟨ios, htrace, hios⟩ := hw.trace
  have hdone : ¬0 < ((m''.advanced .remote n).conn .remote).wbufLen := by
    simp [Machine.advanced, TcpConn.advance, hconn, ho.wbufLen]
    omega
  have hclient := ho.outside.conn .client
  have hdata : Io.piped (m''.piped .client .remote n).trace = data ++ seg := by
    rw [Machine.trace_piped, htrace, ho.trace, List.append_assoc]
    have := Io.piped_pipe m.trace (.recv .client seg :: ios)
    simpa [hios, h.data, Io.dataIn] using this
  rw [Machine.piped, if_neg hdone] at hdata ⊢
  constructor
  case alive => simpa using hw.alive
  case remote =>
    have : m''.remote = true := by
      rw [hw.remote]
      exact (ho.outside.usable .remote).mpr (h.alive.remote h.remote) |>.exists_remote rfl
    exact this
  case data => exact hdata
  all_goals
    simp [Machine.released, Machine.advanced, TcpConn.advance, hw.client, hconn, hclient, hsink, h.proto,
      h.connected, h.rbufLen]

theorem Established.wp_read (happ : E.app = .xsLocal) {data : List Byte} (h : Established P m dest data)
    {seg : List Byte} (hseg : seg ≠ []) (hlen : seg.length ≤ NET_IOBUF_LEN)
    {Q : Unit → Machine κ → Prop}
    (hwrite : ∀ m', Machine.Offered .client .remote (m.withInp (arrival inp uninit room seg)) m' seg
      → wp (connWrite E .remote seg seg.length)
          (Machine.PipePost .client .remote seg.length fun _ => Q ()) F m')
    : wp (handler E .client .read) Q F (m.withInp (arrival inp uninit room seg)) := by
  have hinp := h.withInp (arrival inp uninit room seg)
  have hclient := hinp.alive.client
  have hremote := hinp.alive.remote hinp.remote
  have hpos : 0 < seg.length := List.length_pos_iff.mpr hseg
  rw [wp_handler happ hclient h.connected, Local.tcpClientOnRead, wp_bind, wp_deref hclient, wp_bind,
    wp_derefSocks5 hclient hinp.proto, if_neg (by simp), wp_bind, wp_get, hinp.remote,
    if_neg (by simp), wp_bind]
  apply wp_tcpPipe_of_connRead hclient hremote
  have hplain : (((m.withInp (arrival inp uninit room seg)).piping .client .remote).conn
      .client).proto.Plain := by
    simp [Machine.piping, h.proto]
    exact .socks5 _
  rw [wp_connRead (by simpa using hinp.alive) (by simpa using hclient) hplain,
    wp_tcpRead (by simpa using hinp.alive) (by simpa using hclient), hinp.rbufOff, hinp.rbufLen]
  have hread : ((m.withInp (arrival inp uninit room seg)).piping .client .remote).netRead
      (NET_IOBUF_LEN - (0 : Nat)) = ⟨seg.length, false, seg⟩ := netTcpRead_data hseg (by omega)
  rw [hread]
  dsimp only
  rw [if_neg (by rw [ERR]; omega), if_neg (by simp)]
  have ho := Machine.offered_filled hinp.wbuf hinp.rbufOff seg
  refine ⟨fun hle => by omega, fun _ => ⟨by simpa using hclient, by simpa using hremote, ?_, ?_⟩⟩
  . simp [Machine.restarted, Machine.received, Machine.piping, h.wbuf]
  . rw [Int.toNat_natCast, ho.pending, ho.wbufLen]
    exact hwrite _ ho

variable (inp uninit) in
theorem pairStep_relay (happ : E.app = .xsLocal) {way : Bool}
    (hencrypts : E.crypto.Encrypts eCtx₀ limit room) (hroom : NET_IOBUF_LEN ≤ room) {data : List Byte}
    (h : Established (Sink E.crypto eCtx₀ way) m dest data) {seg : List Byte} (hseg : seg ≠ [])
    (hlen : seg.length ≤ NET_IOBUF_LEN) (hlimit : way = true ∨ seg.length ≤ limit)
    : ∃ m', pairStep E m ((.client, .read), arrival inp uninit room seg) = .ok m'
        ∧ Established (Sink E.crypto eCtx₀ way) m' dest (data ++ seg) := by
  have hinp := h.withInp (arrival inp uninit room seg)
  have hremote := hinp.alive.remote hinp.remote
  have hpos : 0 < seg.length := List.length_pos_iff.mpr hseg
  apply pairStep_ok (by simp [TcpConn.registered, h.re])
  apply h.wp_read happ hseg hlen
  intro m₁ ho
  apply wp_connWrite_sink (ho.outside.alive.mpr hinp.alive) ((ho.outside.usable _).mpr hremote) _
    hencrypts ho.writes (Nat.le_trans hlen hroom) hlimit
  . intro n m' hn hw
    refine ⟨fun heq => absurd heq (by rw [ERR]; omega), fun _ => ⟨hw.alive.client, hw.alive.remote ?_,
      hinp.piped ho hw hn⟩⟩
    rw [hw.remote]
    exact (ho.outside.usable .remote).mpr hremote |>.exists_remote rfl
  . rw [(ho.outside.conn .remote).1]
    exact h.sink

theorem pairStep_refused (happ : E.app = .xsLocal) (hencrypts : E.crypto.Encrypts eCtx₀ limit room)
    {data : List Byte} (h : Established (Sink E.crypto eCtx₀ false) m dest data) {seg : List Byte}
    (hlen : seg.length ≤ NET_IOBUF_LEN) (hlimit : limit < seg.length) {m' : Machine κ}
    (heq : pairStep E m ((.client, .read), arrival inp uninit room seg) = .ok m')
    : m'.Dead := by
  have hinp := h.withInp (arrival inp uninit room seg)
  have hremote := hinp.alive.remote hinp.remote
  have hseg : seg ≠ [] := List.length_pos_iff.mp (by omega)
  apply post_of_pairStep (by simp [TcpConn.registered, h.re]) _ heq
  apply h.wp_read happ hseg hlen
  intro m₁ ho
  apply wp_connWrite_refused (ho.outside.alive.mpr hinp.alive) _ _ hencrypts hlimit hlen
  . intro m₂ hdead
    exact ⟨fun _ => hdead, fun hne => absurd rfl hne⟩
  . exact (ho.outside.usable .remote).mpr hremote |>.exists_remote rfl
  . rw [(ho.outside.conn .remote).1]
    exact h.sink

variable (inp uninit) in
theorem run_relay (happ : E.app = .xsLocal) {way : Bool}
    (hencrypts : E.crypto.Encrypts eCtx₀ limit room) (hroom : NET_IOBUF_LEN ≤ room) {data : List Byte}
    (h : Established (Sink E.crypto eCtx₀ way) m dest data) {segs : List (List Byte)}
    (hsegs : Readable segs) (hlimit : way = true ∨ ∀ seg ∈ segs, seg.length ≤ limit)
    : ∃ m', run (pairStep E) m
          (segs.map fun seg => ((.client, .read), arrival inp uninit room seg)) = .ok m'
        ∧ Established (Sink E.crypto eCtx₀ way) m' dest (data ++ segs.flatten) := by
  induction segs generalizing m data with
  | nil => exact ⟨m, rfl, by simpa using h⟩
  | cons seg segs ih =>
    obtain ⟨hseg, hlen⟩ := hsegs seg (List.mem_cons_self ..)
    obtain ⟨m₁, heq, h₁⟩ := pairStep_relay inp uninit happ hencrypts hroom h hseg hlen
      (hlimit.imp_right fun hle => hle seg (List.mem_cons_self ..))
    rw [List.map_cons, run, heq, List.flatten_cons, ← List.append_assoc]
    exact ih h₁ (fun seg hmem => hsegs seg (List.mem_cons_of_mem _ hmem))
      (hlimit.imp_right fun hle seg hmem => hle seg (List.mem_cons_of_mem _ hmem))

theorem run_refused (happ : E.app = .xsLocal) (hencrypts : E.crypto.Encrypts eCtx₀ limit room)
    (hroom : NET_IOBUF_LEN ≤ room) {data : List Byte}
    (h : Established (Sink E.crypto eCtx₀ false) m dest data) {segs : List (List Byte)}
    (hsegs : Readable segs) (hlimit : ¬∀ seg ∈ segs, seg.length ≤ limit) {m' : Machine κ}
    (heq : run (pairStep E) m
      (segs.map fun seg => ((.client, .read), arrival inp uninit room seg)) = .ok m')
    : ¬m'.Alive := by
  induction segs generalizing m data with
  | nil => simp at hlimit
  | cons seg segs ih =>
    obtain ⟨hseg, hlen⟩ := hsegs seg (List.mem_cons_self ..)
    have hsegs : Readable segs := fun seg hmem => hsegs seg (List.mem_cons_of_mem _ hmem)
    rw [List.map_cons, run] at heq
    by_cases hle : seg.length ≤ limit
    . obtain ⟨m₁, hstep, h₁⟩ := pairStep_relay inp uninit happ hencrypts hroom h hseg hlen (.inr hle)
      rw [hstep] at heq
      apply ih h₁ hsegs _ heq
      simpa [hle] using hlimit
    . split at heq
      . next m₁ hstep =>
        have hdead := pairStep_refused happ hencrypts h hlen (by omega) hstep
        rw [run_dead hdead (by simp)] at heq
        rw [← Except.ok.inj heq]
        exact hdead.not_alive
      . contradiction

end

def readable (inp : Inputs κ) (uninit : Uninit) (room : Nat) (r : List Byte)
    : (Side × Ready) × Inputs κ :=
  ((.client, .read), arrival inp uninit room r)

/--
The client sends the parts of its stream. The first data make the remote, and the client is watched
again once the remote is connected.
-/
def schedule (inp : Inputs κ) (uninit : Uninit) (room : Nat)
    : List (List Byte) → List ((Side × Ready) × Inputs κ)
  | r₁ :: r₂ :: seg :: segs =>
    readable inp uninit room r₁ :: readable inp uninit room r₂ :: readable inp uninit room seg
      :: ((.remote, .write), arrival inp uninit room seg)
      :: (seg :: segs).map (readable inp uninit room)
  | reads => reads.map (readable inp uninit room)

/--
The stream whose parts are `reads` leads through the handshake with the destination `dest`, and `data`
are left to the relay, whatever was in memory before.
-/
def Relays (E : Env κ) (m : Machine κ) (inp : Inputs κ) (room : Nat) (reads : List (List Byte))
    (dest data : List Byte) : Prop :=
  ∀ uninit, ∃ m', run (pairStep E) m (schedule inp uninit room reads) = .ok m' ∧ m'.Alive
    ∧ (m'.conn .client).proto = .socks5 ⟨.SERVER, .STREAM, .created dest⟩ ∧ Io.piped m'.trace = data

inductive OneByOne (I : Inet) (A R : List Byte) (addr : Socks5Addr) : List (List Byte) → Prop where
  /-- There is a cut between the messages and one behind them. -/
  | between (segs : List (List Byte)) (encodes : I.Encodes (.ofBuf addr.host))
    : OneByOne I A R addr (A :: R :: segs)
  /-- The cut is in `R`, but its rest happens to be a request for the same destination. -/
  | within (x r : List Byte) (segs : List (List Byte)) (addr' : Socks5Addr) (append : x ++ r = R)
      (ne_nil : x ≠ []) (requested : requested I r = some addr')
      (encodes : I.Encodes (.ofBuf addr'.host))
      (same : encodeAddr I .zero (.ofBuf addr'.host) addr'.port
        = encodeAddr I .zero (.ofBuf addr.host) addr.port)
    : OneByOne I A R addr ((A ++ x) :: r :: segs)

section

variable {E : Env κ} {limit room : Nat} {inp : Inputs κ} {uninit : Uninit} {r₁ r₂ : List Byte}
  {segs : List (List Byte)}

variable (room inp uninit) in
theorem run_handshake (happ : E.app = .xsLocal) (hI : E.inet.Lawful) (hroom : 10 ≤ room)
    (hreads : Readable [r₁, r₂]) (hauth : authAccepted r₁ = true) {addr : Socks5Addr}
    (haddr : requested E.inet r₂ = some addr) (seg : List Byte) (segs : List (List Byte))
    : ∃ m', let dest := encodeAddr E.inet uninit (.ofBuf addr.host) addr.port
        Established (Sink E.crypto inp.ctx.1 (direct E dest)) m' dest []
        ∧ run (pairStep E) (.accepted E .SOCKS5 inp) (schedule inp uninit room (r₁ :: r₂ :: seg :: segs))
          = run (pairStep E) m' ((seg :: segs).map (readable inp uninit room)) := by
  obtain ⟨hr₁, hlen₁⟩ := hreads r₁ (by simp)
  obtain ⟨hr₂, hlen₂⟩ := hreads r₂ (by simp)
  obtain ⟨m₁, heq₁, h₁⟩ := pairStep_auth inp uninit happ
    (greeting_accepted E inp) rfl hr₁ hlen₁ hroom hauth
  obtain ⟨m₂, heq₂, h₂⟩ := pairStep_request inp uninit happ h₁ rfl hr₂ hlen₂ hroom
    haddr
  have hparsed := parsed_of_parseAddr (parseAddr_of_requested haddr)
  have hle := CString.length_ofBuf_le addr.host
  have hlt := hparsed.length_host
  have hdest := parseAddr_encodeAddr hI uninit (.ofBuf addr.host) (by omega) hparsed.port
  obtain ⟨m₃, heq₃, h₃⟩ := pairStep_newRemote room inp uninit happ h₂ hdest seg
  obtain ⟨m₄, heq₄, h₄⟩ := pairStep_connected room inp uninit happ h₃ seg
  refine ⟨m₄, h₄, ?_⟩
  rw [schedule, run, readable, heq₁]
  dsimp only
  rw [run, readable, heq₂]
  dsimp only
  rw [run, readable, heq₃]
  dsimp only
  rw [run, heq₄]

variable (inp uninit) in
theorem run_schedule (happ : E.app = .xsLocal) (hI : E.inet.Lawful)
    (hencrypts : E.crypto.Encrypts inp.ctx.1 limit room) (hroom : NET_IOBUF_LEN ≤ room)
    (hreads : Readable (r₁ :: r₂ :: segs)) (hauth : authAccepted r₁ = true) {addr : Socks5Addr}
    (haddr : requested E.inet r₂ = some addr)
    (hlimit : direct E (encodeAddr E.inet uninit (.ofBuf addr.host) addr.port) = true
      ∨ ∀ seg ∈ segs, seg.length ≤ limit)
    : ∃ m', run (pairStep E) (.accepted E .SOCKS5 inp) (schedule inp uninit room (r₁ :: r₂ :: segs))
          = .ok m'
        ∧ m'.Alive
        ∧ (m'.conn .client).proto = .socks5 ⟨.SERVER, .STREAM,
            .created (encodeAddr E.inet uninit (.ofBuf addr.host) addr.port)⟩
        ∧ Io.piped m'.trace = segs.flatten := by
  have hten : 10 ≤ room := Nat.le_trans (by decide) hroom
  have hsegs : Readable segs := fun seg hmem => hreads seg (by simp [hmem])
  cases segs with
  | nil =>
    obtain ⟨hr₁, hlen₁⟩ := hreads r₁ (by simp)
    obtain ⟨hr₂, hlen₂⟩ := hreads r₂ (by simp)
    obtain ⟨m₁, heq₁, h₁⟩ := pairStep_auth inp uninit happ
      (greeting_accepted E inp) rfl hr₁ hlen₁ hten hauth
    obtain ⟨m₂, heq₂, h₂⟩ := pairStep_request inp uninit happ h₁ rfl hr₂ hlen₂ hten
      haddr
    refine ⟨m₂, ?_, h₂.alive, h₂.proto, Io.piped_of_not_mem h₂.unpiped⟩
    simp [schedule, readable, run, heq₁, heq₂]
  | cons seg segs =>
    obtain ⟨m₄, h₄, heq₄⟩ := run_handshake room inp uninit happ hI hten
      (hreads.sublist (by simp)) hauth haddr seg segs
    obtain ⟨m₅, heq₅, h₅⟩ := run_relay inp uninit happ hencrypts hroom h₄ hsegs hlimit
    exact ⟨m₅, heq₄.trans heq₅, h₅.alive, h₅.proto, by simpa using h₅.data⟩

theorem not_alive_refused (happ : E.app = .xsLocal) (hI : E.inet.Lawful)
    (hencrypts : E.crypto.Encrypts inp.ctx.1 limit room) (hroom : NET_IOBUF_LEN ≤ room)
    (hreads : Readable (r₁ :: r₂ :: segs)) (hauth : authAccepted r₁ = true) {addr : Socks5Addr}
    (haddr : requested E.inet r₂ = some addr)
    (hproxy : direct E (encodeAddr E.inet uninit (.ofBuf addr.host) addr.port) = false)
    (hlimit : ¬∀ seg ∈ segs, seg.length ≤ limit) {m' : Machine κ}
    (heq : run (pairStep E) (.accepted E .SOCKS5 inp) (schedule inp uninit room (r₁ :: r₂ :: segs))
      = .ok m')
    : ¬m'.Alive := by
  have hsegs : Readable segs := fun seg hmem => hreads seg (by simp [hmem])
  cases segs with
  | nil => simp at hlimit
  | cons seg segs =>
    obtain ⟨m₄, h₄, heq₄⟩ := run_handshake room inp uninit happ hI
      (Nat.le_trans (by decide) hroom) (hreads.sublist (by simp)) hauth haddr seg segs
    rw [hproxy] at h₄
    exact run_refused happ hencrypts hroom h₄ hsegs hlimit (heq₄.symm.trans heq)

theorem schedule_cons (inp : Inputs κ) (uninit : Uninit) (room : Nat) (r : List Byte)
    (reads : List (List Byte))
    : ∃ as, schedule inp uninit room (r :: reads) = readable inp uninit room r :: as
        ∧ ∀ a ∈ as, a.1.2 ≠ .timeout := by
  rcases reads with _ | ⟨r₂, _ | ⟨seg, segs⟩⟩
  . exact ⟨_, rfl, by simp⟩
  . exact ⟨_, rfl, by simp [readable]⟩
  . exact ⟨_, rfl, by simp [readable]⟩

theorem schedule_cons_cons (inp : Inputs κ) (uninit : Uninit) (room : Nat) (r₁ r₂ : List Byte)
    (segs : List (List Byte))
    : ∃ as, schedule inp uninit room (r₁ :: r₂ :: segs)
          = readable inp uninit room r₁ :: readable inp uninit room r₂ :: as
        ∧ ∀ a ∈ as, a.1.2 ≠ .timeout := by
  cases segs with
  | nil => exact ⟨_, rfl, by simp⟩
  | cons seg segs => exact ⟨_, rfl, by simp [readable]⟩

theorem not_alive_auth (happ : E.app = .xsLocal) {reads : List (List Byte)}
    (hreads : Readable (r₁ :: reads)) (hauth : authAccepted r₁ = false) {m' : Machine κ}
    (heq : run (pairStep E) (.accepted E .SOCKS5 inp) (schedule inp uninit room (r₁ :: reads))
      = .ok m')
    : ¬m'.Alive := by
  obtain ⟨hr₁, hlen₁⟩ := hreads r₁ (by simp)
  obtain ⟨as, hschedule, has⟩ := schedule_cons inp uninit room r₁ reads
  rw [hschedule, run] at heq
  split at heq
  . next m₁ hstep =>
    have hdead := pairStep_auth_incomplete happ (greeting_accepted E inp) rfl hr₁ hlen₁ hauth hstep
    rw [run_dead hdead has] at heq
    simp only [Except.ok.injEq] at heq
    rw [← heq]
    exact hdead.not_alive
  . contradiction

theorem not_alive_request (happ : E.app = .xsLocal) (hroom : 10 ≤ room)
    (hreads : Readable (r₁ :: r₂ :: segs)) (hauth : authAccepted r₁ = true)
    (haddr : requested E.inet r₂ = none) {m' : Machine κ}
    (heq : run (pairStep E) (.accepted E .SOCKS5 inp) (schedule inp uninit room (r₁ :: r₂ :: segs))
      = .ok m')
    : ¬m'.Alive := by
  obtain ⟨hr₁, hlen₁⟩ := hreads r₁ (by simp)
  obtain ⟨hr₂, hlen₂⟩ := hreads r₂ (by simp)
  obtain ⟨as, hschedule, has⟩ := schedule_cons_cons inp uninit room r₁ r₂ segs
  obtain ⟨m₁, heq₁, h₁⟩ := pairStep_auth inp uninit happ
    (greeting_accepted E inp) rfl hr₁ hlen₁ hroom hauth
  rw [hschedule, run, readable, heq₁] at heq
  dsimp only at heq
  rw [run] at heq
  split at heq
  . next m₂ hstep =>
    have hdead := pairStep_request_incomplete happ h₁ rfl hr₂ hlen₂ haddr hstep
    rw [run_dead hdead has] at heq
    simp only [Except.ok.injEq] at heq
    rw [← heq]
    exact hdead.not_alive
  . contradiction

theorem not_relays_one (happ : E.app = .xsLocal) (hroom : 10 ≤ room) (hreads : Readable [r₁])
    (dest data : List Byte)
    : ¬Relays E (.accepted E .SOCKS5 inp) inp room [r₁] dest data := by
  intro h
  obtain ⟨m', heq, halive, hproto, -⟩ := h .zero
  cases hauth : authAccepted r₁ with
  | false => exact not_alive_auth happ hreads hauth heq halive
  | true =>
    obtain ⟨hr₁, hlen₁⟩ := hreads r₁ (by simp)
    obtain ⟨m₁, heq₁, h₁⟩ := pairStep_auth inp .zero happ
      (greeting_accepted E inp) rfl hr₁ hlen₁ hroom hauth
    simp only [schedule, List.map_cons, List.map_nil, run, readable, heq₁, Except.ok.injEq] at heq
    rw [← heq, h₁.proto] at hproto
    simp at hproto

theorem relays_iff_of_accepted (happ : E.app = .xsLocal) (hI : E.inet.Lawful)
    (hencrypts : E.crypto.Encrypts inp.ctx.1 limit room) (hroom : NET_IOBUF_LEN ≤ room)
    (hreads : Readable (r₁ :: r₂ :: segs)) (hauth : authAccepted r₁ = true) {addr : Socks5Addr}
    (haddr : requested E.inet r₂ = some addr) (dest data : List Byte)
    : Relays E (.accepted E .SOCKS5 inp) inp room (r₁ :: r₂ :: segs) dest data
        ↔ (E.inet.Encodes (.ofBuf addr.host)
            ∧ encodeAddr E.inet .zero (.ofBuf addr.host) addr.port = dest)
          ∧ segs.flatten = data ∧ (direct E dest = true ∨ ∀ seg ∈ segs, seg.length ≤ limit) := by
  have hiff : Relays E (.accepted E .SOCKS5 inp) inp room (r₁ :: r₂ :: segs) dest data
      ↔ ∀ uninit, encodeAddr E.inet uninit (.ofBuf addr.host) addr.port = dest
          ∧ segs.flatten = data ∧ (direct E dest = true ∨ ∀ seg ∈ segs, seg.length ≤ limit) := by
    apply forall_congr'
    intro uninit
    by_cases hlimit : direct E (encodeAddr E.inet uninit (.ofBuf addr.host) addr.port) = true
        ∨ ∀ seg ∈ segs, seg.length ≤ limit
    . obtain ⟨m', heq, halive, hproto, hdata⟩ := run_schedule inp uninit happ hI hencrypts hroom
        hreads hauth haddr hlimit
      rw [heq]
      constructor
      . rintro ⟨m'', h, -, hproto', hdata'⟩
        obtain rfl := Except.ok.inj h
        rw [hproto] at hproto'
        simp only [Proto.socks5.injEq, TcpSocks5.mk.injEq, Sds.created.injEq, true_and] at hproto'
        rw [← hproto', ← hdata, hdata']
        exact ⟨rfl, rfl, hlimit⟩
      . rintro ⟨hdest, hdata', -⟩
        exact ⟨m', rfl, halive, by rw [hproto, hdest], by rw [hdata, hdata']⟩
    . obtain ⟨hproxy, hlimit'⟩ := not_or.mp hlimit
      constructor
      . rintro ⟨m', heq, halive, -⟩
        have := not_alive_refused happ hI hencrypts hroom hreads hauth haddr
          (by simpa using hproxy) hlimit' heq
        contradiction
      . rintro ⟨hdest, -, hlimit''⟩
        rw [hdest] at hlimit
        contradiction
  rw [hiff, encodes_iff_encodeAddr _ addr.port]
  constructor
  . intro h
    refine ⟨⟨fun uninit => ?_, (h .zero).1⟩, (h .zero).2⟩
    rw [(h uninit).1, (h .zero).1]
  . intro ⟨⟨hencodes, hdest⟩, hdata⟩ uninit
    exact ⟨by rw [hencodes uninit, hdest], hdata⟩

theorem oneByOne_of_append {I : Inet} {A R : List Byte} {addr addr' : Socks5Addr}
    (hR : ConnectRequest I R addr) (hle : A.length ≤ r₁.length) (happend : r₁ ++ r₂ = A ++ R)
    (haddr : requested I r₂ = some addr') (hencodes : I.Encodes (.ofBuf addr'.host))
    (hdest : encodeAddr I .zero (.ofBuf addr'.host) addr'.port
      = encodeAddr I .zero (.ofBuf addr.host) addr.port)
    : OneByOne I A R addr (r₁ :: r₂ :: segs) := by
  obtain ⟨x, rfl⟩ : A <+: r₁ :=
    List.prefix_of_prefix_length_le ⟨R, rfl⟩ ⟨r₂, happend⟩ hle
  rw [List.append_assoc, List.append_cancel_left_eq] at happend
  by_cases hx : x = []
  . rw [hx, List.nil_append] at happend
    rw [hx, List.append_nil, happend]
    rw [happend, requested_request hR] at haddr
    simp only [Option.some.injEq] at haddr
    rw [← haddr] at hencodes
    exact .between segs hencodes
  . exact .within x r₂ segs addr' happend hx haddr hencodes hdest

end

end Local

/--
xs-local takes each of the first two reads for one message. It does what the client asks for exactly if
the reads are the messages, and no later one is too long for the cipher it is encrypted with.
-/
theorem relays_iff (E : Env κ) (happ : E.app = .xsLocal) (hI : E.inet.Lawful) (inp : Inputs κ)
    (m : Machine κ) (hm : tcpServerOnAccept E (TcpServer.new.machine .absent inp) = .ok () m)
    (limit room : Nat) (hencrypts : E.crypto.Encrypts inp.ctx.1 limit room) (hroom : NET_IOBUF_LEN ≤ room)
    (A R Y : List Byte) (addr : Socks5Addr) (hA : MethodSelection A) (hR : ConnectRequest E.inet R addr)
    (reads : List (List Byte)) (hreads : Readable reads) (hflatten : reads.flatten = A ++ R ++ Y)
    : let dest := encodeAddr E.inet .zero (.ofBuf addr.host) addr.port
      Local.Relays E m inp room reads dest Y
        ↔ Local.OneByOne E.inet A R addr reads
          ∧ (Local.direct E dest = true ∨ ∀ seg ∈ reads.drop 2, seg.length ≤ limit) := by
  intro dest
  rw [tcpServerOnAccept_eq E (by simp [happ]), happ, App.clientType] at hm
  simp only [EStateM.Result.ok.injEq, true_and] at hm
  subst hm
  have hten : 10 ≤ room := Nat.le_trans (by decide) hroom
  rcases reads with _ | ⟨r₁, _ | ⟨r₂, segs⟩⟩
  . -- The messages are not empty.
    obtain ⟨_, _, rfl, -⟩ := hA.exists_methods
    simp at hflatten
  . constructor
    . intro h
      exact absurd h (Local.not_relays_one happ hten hreads _ _)
    . rintro ⟨h, -⟩
      cases h
  . have hflatten' : r₁ ++ (r₂ ++ segs.flatten) = A ++ R ++ Y := by simpa using hflatten
    have hauth := authAccepted_iff hA (S := A ++ R ++ Y) (r := r₁)
      ⟨R ++ Y, by rw [List.append_assoc]⟩ ⟨_, hflatten'⟩
    constructor
    . intro h
      obtain ⟨m', heq, halive, -⟩ := h .zero
      cases hacc : authAccepted r₁ with
      | false => exact absurd halive (Local.not_alive_auth happ hreads hacc heq)
      | true =>
        cases haddr : requested E.inet r₂ with
        | none => exact absurd halive (Local.not_alive_request happ hten hreads hacc haddr heq)
        | some addr' =>
          rw [Local.relays_iff_of_accepted happ hI hencrypts hroom hreads hacc haddr] at h
          obtain ⟨⟨hencodes, hdest⟩, hdata, hlimit⟩ := h
          rw [hdata, ← List.append_assoc, List.append_cancel_right_eq] at hflatten'
          exact ⟨Local.oneByOne_of_append hR (hauth.mp hacc) hflatten' haddr hencodes hdest, hlimit⟩
    . rintro ⟨h, hlimit⟩
      cases h with
      | between _ hencodes =>
        rw [Local.relays_iff_of_accepted happ hI hencrypts hroom hreads (hauth.mpr (Nat.le_refl _))
          (requested_request hR)]
        refine ⟨⟨hencodes, rfl⟩, ?_, hlimit⟩
        rw [← List.append_assoc, List.append_cancel_left_eq] at hflatten'
        exact hflatten'
      | within x _ _ addr' happend hx haddr hencodes hdest =>
        rw [Local.relays_iff_of_accepted happ hI hencrypts hroom hreads (hauth.mpr (by simp)) haddr]
        refine ⟨⟨hencodes, hdest⟩, ?_, hlimit⟩
        rw [← happend, ← List.append_assoc, ← List.append_assoc, List.append_cancel_left_eq]
          at hflatten'
        exact hflatten'

theorem methodSelection_noauth : MethodSelection [5, 1, 0] :=
  ⟨1, [0], rfl, rfl, by decide⟩

theorem connectRequest_localhost
    : ConnectRequest Inet.text [5, 1, 0, 1, 127, 0, 0, 1, 0, 80] ⟨7, .ipv4, localhost.bytes, 80⟩ :=
  ⟨0, [1, 127, 0, 0, 1, 0, 80], rfl, by decide +kernel, rfl⟩

theorem relays_one_by_one
    : let E := Env.default .xsLocal (cryptoInit (.aead .zero)) .text
      let inp : Inputs (CipherCtx Unit) := Inputs.idle ⟨0, 0, (), [], List.replicate 32 7, [], []⟩
      Local.Relays E (.accepted E .SOCKS5 inp) inp 16500
        [[5, 1, 0], [5, 1, 0, 1, 127, 0, 0, 1, 0, 80], [9], [8]] [1, 127, 0, 0, 1, 0, 80] [9, 8] := by
  intro E inp
  have hencodes : E.inet.Encodes (.ofBuf localhost.bytes) := by decide +kernel
  have hdest : encodeAddr E.inet .zero (.ofBuf localhost.bytes) 80 = [1, 127, 0, 0, 1, 0, 80] := by
    decide +kernel
  have hiff := relays_iff E rfl Inet.text_lawful inp _ (tcpServerOnAccept_eq E (by decide) inp)
    CHUNK_SIZE_MASK 16500 (Cipher.encrypts (K := .aead .zero) (fun _ _ _ => rfl) (by decide)) (by decide)
    [5, 1, 0] [5, 1, 0, 1, 127, 0, 0, 1, 0, 80] [9, 8] _ methodSelection_noauth connectRequest_localhost
    [[5, 1, 0], [5, 1, 0, 1, 127, 0, 0, 1, 0, 80], [9], [8]] (by simp [Readable, NET_IOBUF_LEN]) rfl
  dsimp only at hiff
  rw [hdest] at hiff
  exact hiff.mpr ⟨.between _ hencodes, .inr (by simp [CHUNK_SIZE_MASK])⟩

/--
The first byte of data arrives with the request: it is dropped, and the relay gets only the second
one.
-/
theorem payload_discarded
    : let E := Env.default .xsLocal .copy .text
      let inp := Inputs.idle ()
      let A : List Byte := [5, 1, 0]
      let R : List Byte := [5, 1, 0, 1, 127, 0, 0, 1, 0, 80]
      let reads : List (List Byte) := [A, R ++ [9], [8]]
      tcpServerOnAccept E (TcpServer.new.machine .absent inp) = .ok () (.accepted E .SOCKS5 inp)
        ∧ E.crypto.Encrypts inp.ctx.1 NET_IOBUF_LEN NET_IOBUF_LEN ∧ MethodSelection A
        ∧ ConnectRequest E.inet R ⟨7, .ipv4, localhost.bytes, 80⟩ ∧ Readable reads
        ∧ reads.flatten = A ++ R ++ [9, 8]
        ∧ ∃ m', run (pairStep E) (.accepted E .SOCKS5 inp)
              (Local.schedule inp .zero NET_IOBUF_LEN reads) = .ok m'
          ∧ Io.piped m'.trace = [8] := by
  intro E inp A R reads
  exact ⟨tcpServerOnAccept_eq E (by decide) inp, Crypto.encrypts_copy, methodSelection_noauth,
    connectRequest_localhost, by simp [reads, A, R, Readable, NET_IOBUF_LEN], rfl,
    exists_ok_of_eval _ (by decide +kernel)⟩

end Xsocks
