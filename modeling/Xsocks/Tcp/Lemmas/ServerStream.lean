import Xsocks.Tcp.Lemmas.ServerHandshake

/-!
This module contains runs of xs-server on a stream that reaches it in parts. The server handles each
part as if it were complete, so the runs are the same only for some ways to cut the stream.
-/

namespace Xsocks

open Wp Run

variable {κ : Type}

/--
`decrypt` as its return codes document it, on all parts of the stream `S`. After the bytes `c` it is in
the context `ctx c` and has returned the plaintext `plain c`.
-/
structure Crypto.Streams (C : Crypto κ) (dCtx : κ) (S : List Byte) (ctx : List Byte → κ)
    (plain : List Byte → List Byte) : Prop where
  ctx_nil : ctx [] = dCtx
  plain_nil : plain [] = []
  mono : ∀ c d, c ++ d <+: S → plain c <+: plain (c ++ d)
  dCtx : ∀ c d, c ++ d <+: S → d ≠ [] → (C.decrypt (ctx c) d).dCtx = ctx (c ++ d)
  res : ∀ c d, c ++ d <+: S → d ≠ []
    → (C.decrypt (ctx c) d).res
        = if plain (c ++ d) = plain c then .CRYPTO_NEED_MORE
          else .CRYPTO_OK ((plain (c ++ d)).drop (plain c).length)

theorem Crypto.Streams.mono_of_isPrefix {C : Crypto κ} {dCtx : κ} {S done : List Byte}
    {ctx : List Byte → κ} {plain : List Byte → List Byte} (h : C.Streams dCtx S ctx plain)
    (hdone : done <+: S)
    : plain done <+: plain S := by
  obtain ⟨d, rfl⟩ := hdone
  exact h.mono done d (List.prefix_refl _)

namespace Server

/--
The client sends the parts of its stream. The remote is connected after the first part, before the
client is watched again.
-/
def schedule (inp : Inputs κ) (uninit : Uninit) (room : Nat)
    : List (List Byte) → List ((Side × Ready) × Inputs κ)
  | [] => []
  | seg :: segs =>
    ((.client, .read), arrival inp uninit room seg)
      :: ((.remote, .write), arrival inp uninit room [])
      :: segs.map fun seg => ((.client, .read), arrival inp uninit room seg)

structure Connecting (m : Machine κ) (c : TcpShadowsocks κ) : Prop where
  alive : m.Alive
  remote : m.remote = true
  proto : (m.conn .client).proto = .shadowsocks c
  state : c.state ≠ .INIT
  connected : (m.conn .client).connected = true
  rbufLen : (m.conn .client).rbufLen = NET_IOBUF_LEN
  raw : (m.conn .remote).proto = .raw
  connecting : (m.conn .remote).connected = false
  we : (m.conn .remote).we = true
  piped : (m.conn .remote).piped = false
  wbuf : (m.conn .remote).wbuf = none

structure Established (m : Machine κ) (c : TcpShadowsocks κ) : Prop where
  alive : m.Alive
  remote : m.remote = true
  proto : (m.conn .client).proto = .shadowsocks c
  state : c.state ≠ .INIT
  connected : (m.conn .client).connected = true
  rbufLen : (m.conn .client).rbufLen = NET_IOBUF_LEN
  rbufOff : (m.conn .client).rbufOff = 0
  re : (m.conn .client).re = true
  raw : (m.conn .remote).proto = .raw
  wbuf : (m.conn .remote).wbuf = none

theorem Connecting.withInp {m : Machine κ} {c : TcpShadowsocks κ} (h : Connecting m c)
    (inp : Inputs κ)
    : Connecting (m.withInp inp) c :=
  ⟨by simpa using h.alive, h.remote, h.proto, h.state, h.connected, h.rbufLen, h.raw, h.connecting, h.we,
    h.piped, h.wbuf⟩

theorem Established.withInp {m : Machine κ} {c : TcpShadowsocks κ} (h : Established m c)
    (inp : Inputs κ)
    : Established (m.withInp inp) c :=
  ⟨by simpa using h.alive, h.remote, h.proto, h.state, h.connected, h.rbufLen, h.rbufOff, h.re, h.raw,
    h.wbuf⟩

section

variable {m : Machine κ} {F : Fault → Machine κ → Prop} {E : Env κ} {c : TcpShadowsocks κ}

theorem Waiting.connecting (h : Waiting m c) (hconn : (m.conn .client).connected = true)
    (data : List Byte) (dCtx : κ) (plaintext addrbufDest : List Byte) (host : CString) (port : Nat)
    (off : Nat)
    : Connecting (((m.addressed c data dCtx plaintext addrbufDest).dialled E .RAW host port).rewound
        off plaintext.length)
        { c with dCtx := dCtx, addrbufDest := addrbufDest, state := .HANDSHAKE } := by
  have hclient : (m.addressed c data dCtx plaintext addrbufDest).Usable .client := by
    simpa using h.alive.client
  obtain ⟨rbuf, rbufOff, hconn'⟩ := Machine.conn_rewound_client
    (m := (m.addressed c data dCtx plaintext addrbufDest).dialled E .RAW host port) off
    plaintext.length
  constructor
  case alive =>
    rw [Machine.alive_rewound]
    exact Machine.alive_dialled hclient
  case remote => rfl
  case state => simp
  case proto =>
    rw [hconn', Machine.conn_dialled_client]
    dsimp only
    rw [Machine.proto_addressed]
  case connected =>
    rw [hconn', Machine.conn_dialled_client]
    simpa [Machine.addressed, Machine.setShadowsocks, Machine.decrypted, Machine.restarted,
      Machine.received] using hconn
  case rbufLen =>
    rw [hconn', Machine.conn_dialled_client]
    simpa [Machine.addressed, Machine.setShadowsocks, Machine.decrypted, Machine.restarted,
      Machine.received] using h.rbufLen
  all_goals
    rw [Machine.conn_rewound_remote, Machine.conn_dialled_remote]
    rfl

theorem wp_writeLeft (h : m.Alive) (hr : m.remote = true) (hraw : (m.conn .remote).proto = .raw)
    {room : Nat} (hwrites : m.inp.writes.headD [] = [.count room]) (hroom : m.held.length ≤ room)
    (Q : Bool → Machine κ → Prop)
    : wp (writeLeft E) Q F m
        ↔ if m.held = [] then Q true m
          else Q true (((m.log (.write .remote m.held.length)).sent .remote m.held).upd .client
            fun c => { c with rbufOff := 0 }) := by
  have hlen : m.held.length = (m.conn .client).rbufOff := by simp [Machine.held]
  have hiff : (m.conn .client).rbufOff = 0 ↔ m.held = [] := by
    rw [← hlen, List.length_eq_zero_iff]
  rw [writeLeft, wp_bind, wp_deref h.client]
  simp only [hiff]
  split
  . simp
  . rw [wp_bind, ← Machine.held, ← hlen, wp_connWrite_all h (h.remote hr) hraw hwrites hroom,
      if_neg (by rw [ERR]; omega), if_neg (by omega), wp_bind, wp_assign (by simpa using h.client),
      wp_pure]

theorem wp_connected (happ : E.app = .xsServer) (h : Connecting m c) (hconnect : m.inp.connect = .ok)
    {room : Nat} (hwrites : m.inp.writes.headD [] = [.count room]) (hroom : m.held.length ≤ room)
    : wp (handler E .remote .write)
        (fun _ m' => Established m' c
          ∧ Io.accepted .remote m'.trace = Io.accepted .remote m.trace ++ m.held
          ∧ Io.connects m'.trace = Io.connects m.trace)
        F m := by
  have hremote := h.alive.remote h.remote
  apply wp_tcpConnWriteHandler_connected hremote h.connecting hconnect
  have halive : m.connected.Alive := by simpa [Machine.connected] using h.alive
  have hr : m.connected.remote = true := h.remote
  have hheld : m.connected.held = m.held := by simp [Machine.held, Machine.connected]
  rw [tcpRemoteOnConnect, wp_bind, wp_deref (halive.remote hr), wp_bind, wp_deref halive.client,
    if_neg (by simp [OK, ERR]), happ]
  dsimp only
  rw [wp_bind, wp_writeLeft halive hr (by simpa [Machine.connected] using h.raw) hwrites
    (by rw [hheld]; exact hroom), hheld]
  split
  . next hnil =>
    have hoff : (m.conn .client).rbufOff = 0 := by
      rw [← List.length_eq_zero_iff] at hnil
      simpa [Machine.held] using hnil
    rw [if_pos rfl, wp_preparePipe halive hr]
    refine ⟨by simpa [Machine.prepared] using halive.remote hr, ?_, ⟨?_, h.remote, ?_, h.state, ?_, ?_,
      ?_, ?_, ?_, ?_⟩, ?_, ?_⟩
    all_goals
      simp [Machine.prepared, Machine.connected, h.piped, h.alive, h.proto, h.connected, h.rbufLen,
        hoff, h.raw, h.wbuf, hnil, Io.dataOut, Io.connects, Io.destination]
  . next hne =>
    have halive' : (((m.connected.log (.write .remote m.held.length)).sent .remote m.held).upd .client
        fun c => { c with rbufOff := 0 }).Alive := by
      simpa using halive
    rw [if_pos rfl, wp_preparePipe halive' h.remote]
    refine ⟨by simpa [Machine.prepared] using halive.remote hr, ?_, ⟨?_, h.remote, ?_, h.state, ?_, ?_,
      ?_, ?_, ?_, ?_⟩, ?_, ?_⟩
    all_goals
      simp [Machine.prepared, Machine.connected, Machine.sent, h.piped, h.alive, h.proto, h.connected,
        h.rbufLen, h.raw, h.wbuf, Io.dataOut, Io.connects, Io.destination]

def arrived (m : Machine κ) (c : TcpShadowsocks κ) (seg : List Byte) (dCtx : κ)
    (plaintext : List Byte) : Machine κ :=
  let m := (m.piping .client .remote).setShadowsocks .client c.reading
  let m := (m.received .client 0 seg).restarted .client
  (m.setShadowsocks .client { c.reading with dCtx := dCtx }).decrypted .client 0 plaintext

@[simp]
theorem alive_arrived (seg : List Byte) (dCtx : κ) (plaintext : List Byte)
    : (arrived m c seg dCtx plaintext).Alive ↔ m.Alive := by
  simp [arrived]

@[simp]
theorem usable_arrived (seg : List Byte) (dCtx : κ) (plaintext : List Byte) (s : Side)
    : (arrived m c seg dCtx plaintext).Usable s ↔ m.Usable s := by
  simp [arrived]

theorem Established.pending (h : Established m c) (seg : List Byte) (dCtx : κ)
    (plaintext : List Byte)
    : let m' := (arrived m c seg dCtx plaintext).filled .client .remote plaintext.length
      m'.pending .remote = plaintext ∧ (m'.conn .remote).wbufLen = plaintext.length := by
  intro m'
  have hwbuf : (m'.conn .remote).wbuf = some (.client, 0) := by
    simp [m', arrived, Machine.filled, Machine.decrypted, Machine.setShadowsocks, Machine.restarted,
      Machine.received, Machine.piping, h.wbuf]
  have hlen : (m'.conn .remote).wbufLen = plaintext.length := by
    simp [m', arrived, Machine.filled, Machine.decrypted, Machine.setShadowsocks, Machine.restarted,
      Machine.received, Machine.piping, h.rbufOff]
  refine ⟨?_, hlen⟩
  rw [Machine.pending_of_some hwbuf, hlen]
  simp [m', arrived, Machine.filled, Machine.decrypted]

theorem wp_piped (happ : E.app = .xsServer) (h : Established m c) {seg : List Byte}
    (hseg : seg ≠ []) (hlen : seg.length ≤ NET_IOBUF_LEN) (hreads : m.inp.reads = [[.data seg]])
    {Q : Machine κ → Prop}
    (hQ : let d := E.crypto.decrypt c.dCtx seg
      let m' := (((m.piping .client .remote).setShadowsocks .client c.reading).received .client 0
        seg).restarted .client
      if NET_IOBUF_LEN < d.demand then F .brealloc m'
      else
        match d.res with
        | .CRYPTO_OK plaintext =>
          let m' := (arrived m c seg d.dCtx plaintext).filled .client .remote plaintext.length
          plaintext ≠ []
            ∧ wp (connWrite E .remote plaintext plaintext.length)
                (Machine.PipePost .client .remote plaintext.length (fun _ => Q)) F m'
        | _ =>
          Q (((m'.setShadowsocks .client { c.reading with dCtx := d.dCtx }).withErr .client
            .ERROR_SHADOWSOCKS_DECRYPT).closed .client))
    : wp (handler E .client .read) (fun _ => Q) F m := by
  have hremote := h.alive.remote h.remote
  have hclient := h.alive.client
  have hread : m.netRead (NET_IOBUF_LEN - (0 : Nat)) = ⟨seg.length, false, seg⟩ := by
    rw [Machine.netRead, hreads]
    exact netTcpRead_data hseg (by omega)
  have hpos : 0 < seg.length := List.length_pos_iff.mpr hseg
  have hproto : ((m.piping .client .remote).conn .client).proto = .shadowsocks c := by
    simpa [Machine.piping] using h.proto
  rw [handler, wp_tcpConnReadHandler hclient h.connected, wp_fireRead_client hclient,
    Xsocks.tcpClientOnRead, happ]
  dsimp only
  rw [Server.tcpClientOnRead, wp_bind, wp_deref hclient, wp_bind, wp_get, h.remote, if_neg (by simp),
    wp_bind]
  apply wp_tcpPipe_of_connRead hclient hremote
  rw [h.rbufOff, h.rbufLen, connRead, wp_bind, wp_deref (by simpa using hclient), hproto]
  dsimp only
  rw [wp_tcpShadowsocksConnRead (by simpa using h.alive) (by simpa using hclient) hproto]
  have hread' : (m.piping .client .remote).netRead (NET_IOBUF_LEN - (0 : Nat))
    = ⟨seg.length, false, seg⟩ := hread
  rw [hread']
  dsimp only
  rw [if_neg (by rw [ERR]; omega), if_neg (by simp), if_neg (by omega), DecryptPost]
  dsimp only at hQ
  split at hQ
  . next hdemand =>
    rw [if_pos (by omega)]
    exact hQ
  . next hdemand =>
    rw [if_neg (by omega)]
    cases hres : (E.crypto.decrypt c.dCtx seg).res with
    | CRYPTO_NEED_MORE =>
      rw [hres] at hQ
      exact ⟨fun _ => hQ, fun hpos => absurd hpos (by simp [ERR])⟩
    | CRYPTO_ERROR =>
      rw [hres] at hQ
      exact ⟨fun _ => hQ, fun hpos => absurd hpos (by simp [ERR])⟩
    | CRYPTO_OK plaintext =>
      rw [hres] at hQ
      obtain ⟨hne, hQ⟩ := hQ
      have hstate : c.reading.state ≠ .INIT := by
        intro heq
        exact h.state (TcpShadowsocks.state_reading.mp heq)
      have hpending := h.pending seg (E.crypto.decrypt c.dCtx seg).dCtx plaintext
      dsimp only at hpending ⊢
      rw [ParsePost, if_neg hstate, ← arrived]
      have hpos : 0 < plaintext.length := List.length_pos_iff.mpr hne
      refine ⟨fun hle => by omega, fun _ => ⟨by simpa using hclient, by simpa using hremote, ?_, ?_⟩⟩
      . simp [arrived, Machine.decrypted, Machine.setShadowsocks, Machine.restarted,
          Machine.received, Machine.piping, h.wbuf]
      . rw [Int.toNat_natCast, hpending.1, hpending.2]
        apply wp_mono hQ
        . rintro nwrite m' ⟨herr, hok⟩
          refine ⟨fun heq => by simpa using herr heq, fun hne => ?_⟩
          simpa using hok hne
        . intro f m' hF
          exact hF

theorem wp_handedOn (happ : E.app = .xsServer) (h : Established m c) {seg : List Byte}
    (hseg : seg ≠ []) (hlen : seg.length ≤ NET_IOBUF_LEN) (hreads : m.inp.reads = [[.data seg]])
    {room : Nat} (hwrites : m.inp.writes.headD [] = [.count room]) {plaintext : List Byte}
    (hres : (E.crypto.decrypt c.dCtx seg).res = .CRYPTO_OK plaintext) (hne : plaintext ≠ [])
    (hdemand : (E.crypto.decrypt c.dCtx seg).demand ≤ NET_IOBUF_LEN)
    (hroom : plaintext.length ≤ room)
    : wp (handler E .client .read)
        (fun _ m' => ∃ c', Established m' c' ∧ c'.dCtx = (E.crypto.decrypt c.dCtx seg).dCtx
          ∧ Io.accepted .remote m'.trace = Io.accepted .remote m.trace ++ plaintext
          ∧ Io.connects m'.trace = Io.connects m.trace)
        F m := by
  have hremote := h.alive.remote h.remote
  have hclient := h.alive.client
  have hstate : c.reading.state ≠ .INIT := by
    intro heq
    exact h.state (TcpShadowsocks.state_reading.mp heq)
  apply wp_piped happ h hseg hlen hreads
  dsimp only
  rw [if_neg (by omega), hres]
  refine ⟨hne, ?_⟩
  have hpending := h.pending seg (E.crypto.decrypt c.dCtx seg).dCtx plaintext
  have hwrites' : ((arrived m c seg (E.crypto.decrypt c.dCtx seg).dCtx plaintext).filled .client
    .remote plaintext.length).inp.writes.headD [] = [.count room] := hwrites
  rw [wp_connWrite_all (by simpa using h.alive) (by simpa using hremote) ?_ hwrites' hroom]
  . refine ⟨fun heq => absurd heq (by rw [ERR]; omega), fun _ => ⟨by simpa using hclient,
      by simpa using hremote, ?_⟩⟩
    generalize hm' : (arrived m c seg (E.crypto.decrypt c.dCtx seg).dCtx plaintext).filled .client
      .remote plaintext.length = m' at *
    have hdone : ¬0 < ((((m'.log (.write .remote plaintext.length)).sent .remote plaintext).advanced
        .remote plaintext.length).conn .remote).wbufLen := by
      simp [Machine.advanced, TcpConn.advance, Machine.sent, hpending.2]
    rw [Machine.piped, if_neg hdone]
    subst hm'
    refine ⟨{ c.reading with dCtx := (E.crypto.decrypt c.dCtx seg).dCtx },
      ⟨?_, h.remote, ?_, hstate, ?_, ?_, ?_, ?_, ?_, ?_⟩, rfl, ?_, ?_⟩
    all_goals
      simp [Machine.released, Machine.advanced, TcpConn.advance, Machine.sent, arrived,
        Machine.filled, Machine.decrypted, Machine.setShadowsocks, Machine.restarted,
        Machine.received, Machine.piping, h.alive, h.connected, h.rbufLen, h.raw, Io.dataOut,
        Io.connects, Io.destination]
  . simpa [arrived, Machine.filled, Machine.decrypted, Machine.setShadowsocks, Machine.restarted,
      Machine.received, Machine.piping] using h.raw

theorem wp_incomplete (happ : E.app = .xsServer) (h : Established m c) {seg : List Byte}
    (hseg : seg ≠ []) (hlen : seg.length ≤ NET_IOBUF_LEN) (hreads : m.inp.reads = [[.data seg]])
    (hres : (E.crypto.decrypt c.dCtx seg).res = .CRYPTO_NEED_MORE
      ∨ NET_IOBUF_LEN < (E.crypto.decrypt c.dCtx seg).demand)
    : wp (handler E .client .read) (fun _ m' => m'.Dead) (fun _ _ => True) m := by
  apply wp_piped happ h hseg hlen hreads
  dsimp only
  split
  . trivial
  . next hdemand =>
    rw [or_iff_left hdemand] at hres
    rw [hres]
    apply Machine.dead_closed
    intro hr
    have : m.remote = false := hr
    rw [h.remote] at this
    contradiction

end

/--
After the bytes `done`, each part of the stream completes some plaintext, for which `decrypt` does not
need a larger buffer.
-/
def Complete (C : Crypto κ) (ctx : List Byte → κ) (plain : List Byte → List Byte)
    : List Byte → List (List Byte) → Prop
  | _, [] => True
  | done, seg :: segs =>
    plain (done ++ seg) ≠ plain done
      ∧ (C.decrypt (ctx done) seg).demand ≤ NET_IOBUF_LEN
      ∧ Complete C ctx plain (done ++ seg) segs

section

variable {E : Env κ} {m : Machine κ} {c : TcpShadowsocks κ} {dCtx : κ} {S done : List Byte}
  {ctx : List Byte → κ} {plain : List Byte → List Byte} {inp : Inputs κ} {uninit : Uninit}
  {room : Nat}

theorem drop_append_drop {a b c : List Byte} (hab : a <+: b) (hbc : b <+: c)
    : b.drop a.length ++ c.drop b.length = c.drop a.length := by
  obtain ⟨x, rfl⟩ := hab
  obtain ⟨y, rfl⟩ := hbc
  simp

variable (inp uninit) in
theorem pairStep_complete (happ : E.app = .xsServer) (hstreams : E.crypto.Streams dCtx S ctx plain)
    (h : Established m c) (hctx : c.dCtx = ctx done) {seg : List Byte} (hseg : seg ≠ [])
    (hlen : seg.length ≤ NET_IOBUF_LEN) (hS : done ++ seg <+: S) (hroom : (plain S).length ≤ room)
    (hplain : plain (done ++ seg) ≠ plain done)
    (hdemand : (E.crypto.decrypt (ctx done) seg).demand ≤ NET_IOBUF_LEN)
    : ∃ m', pairStep E m ((.client, .read), arrival inp uninit room seg) = .ok m'
        ∧ ∃ c', Established m' c' ∧ c'.dCtx = ctx (done ++ seg)
          ∧ Io.accepted .remote m'.trace
              = Io.accepted .remote m.trace ++ (plain (done ++ seg)).drop (plain done).length
          ∧ Io.connects m'.trace = Io.connects m.trace := by
  have hle := (hstreams.mono_of_isPrefix hS).length_le
  have hmono := hstreams.mono done seg hS
  have hres : (E.crypto.decrypt c.dCtx seg).res
      = .CRYPTO_OK ((plain (done ++ seg)).drop (plain done).length) := by
    rw [hctx, hstreams.res done seg hS hseg, if_neg hplain]
  have hne : (plain (done ++ seg)).drop (plain done).length ≠ [] := by
    intro hnil
    rw [List.drop_eq_nil_iff] at hnil
    exact hplain (hmono.eq_of_length_le hnil).symm
  apply pairStep_ok (by simp [TcpConn.registered, h.re])
  apply wp_mono (wp_handedOn happ (h.withInp _) hseg hlen rfl rfl hres hne (by rw [hctx]; exact hdemand)
    (by rw [List.length_drop]; omega))
  . rintro _ m' ⟨c', hc', hdCtx, haccepted, hconnects⟩
    refine ⟨c', hc', ?_, haccepted, hconnects⟩
    rw [hdCtx, hctx, hstreams.dCtx done seg hS hseg]
  . intro _ _ hF
    exact hF

theorem pairStep_incomplete (happ : E.app = .xsServer)
    (hstreams : E.crypto.Streams dCtx S ctx plain) (h : Established m c) (hctx : c.dCtx = ctx done)
    {seg : List Byte} (hseg : seg ≠ []) (hlen : seg.length ≤ NET_IOBUF_LEN) (hS : done ++ seg <+: S)
    (hbad : ¬(plain (done ++ seg) ≠ plain done
      ∧ (E.crypto.decrypt (ctx done) seg).demand ≤ NET_IOBUF_LEN))
    {m' : Machine κ}
    (heq : pairStep E m ((.client, .read), arrival inp uninit room seg) = .ok m')
    : m'.Dead := by
  apply post_of_pairStep (by simp [TcpConn.registered, h.re]) _ heq
  apply wp_incomplete happ (h.withInp _) hseg hlen rfl
  by_cases hplain : plain (done ++ seg) = plain done
  . left
    rw [hctx, hstreams.res done seg hS hseg, if_pos hplain]
  . right
    have hdemand : ¬_ := fun hle => hbad ⟨hplain, hle⟩
    rw [hctx]
    omega

theorem run_established_iff (happ : E.app = .xsServer)
    (hstreams : E.crypto.Streams dCtx S ctx plain) (hroom : (plain S).length ≤ room)
    {segs : List (List Byte)} (hsegs : Readable segs) (hS : done ++ segs.flatten <+: S)
    (h : Established m c) (hctx : c.dCtx = ctx done) (connects : List (CString × Nat))
    (payload : List Byte)
    : (∃ m', run (pairStep E) m
          (segs.map fun seg => ((.client, .read), arrival inp uninit room seg)) = .ok m'
        ∧ m'.Alive ∧ Io.connects m'.trace = connects ∧ Io.accepted .remote m'.trace = payload)
        ↔ Complete E.crypto ctx plain done segs ∧ Io.connects m.trace = connects
          ∧ Io.accepted .remote m.trace
              ++ (plain (done ++ segs.flatten)).drop (plain done).length = payload := by
  induction segs generalizing m c done with
  | nil => simp [run, Complete, h.alive]
  | cons seg segs ih =>
    obtain ⟨hseg, hlen⟩ := hsegs seg (List.mem_cons_self ..)
    have hsegs' : Readable segs := fun seg hmem => hsegs seg (List.mem_cons_of_mem _ hmem)
    rw [List.flatten_cons, ← List.append_assoc] at hS ⊢
    have hS' : done ++ seg <+: S := (List.prefix_append _ _).trans hS
    rw [List.map_cons, Complete]
    by_cases hgood : plain (done ++ seg) ≠ plain done
      ∧ (E.crypto.decrypt (ctx done) seg).demand ≤ NET_IOBUF_LEN
    . obtain ⟨hplain, hdemand⟩ := hgood
      obtain ⟨m', heq, c', hc', hctx', haccepted, hconnects⟩ :=
        pairStep_complete inp uninit happ hstreams h hctx hseg hlen hS' hroom
          hplain hdemand
      rw [run, heq]
      dsimp only
      rw [ih hsegs' hS hc' hctx', hconnects, haccepted, List.append_assoc,
        drop_append_drop (hstreams.mono done seg hS') (hstreams.mono _ _ hS)]
      simp [hplain, hdemand]
    . constructor
      . rintro ⟨m', heq, halive, _⟩
        rw [run] at heq
        split at heq
        . next m₁ hstep =>
          have hdead := pairStep_incomplete happ hstreams h hctx hseg hlen hS' hgood hstep
          rw [run_dead hdead (by simp)] at heq
          simp only [Except.ok.injEq] at heq
          rw [← heq] at halive
          exact absurd halive hdead.not_alive
        . contradiction
      . rintro ⟨⟨hplain, hdemand, _⟩, _⟩
        exact absurd ⟨hplain, hdemand⟩ hgood

theorem wp_handler_first (happ : E.app = .xsServer) {m : Machine κ} (hm : m.Usable .client)
    (hconn : (m.conn .client).connected = true) {F : Fault → Machine κ → Prop}
    (Q : Unit → Machine κ → Prop)
    : wp (handler E .client .read) Q F m ↔ wp (Server.tcpClientOnRead E) Q F m := by
  rw [handler, wp_tcpConnReadHandler hm hconn, wp_fireRead_client hm, Xsocks.tcpClientOnRead, happ]

variable {addr : Socks5Addr} {seg : List Byte}

variable (room) in
theorem pairStep_first (happ : E.app = .xsServer) (hI : E.inet.Lawful)
    (hstreams : E.crypto.Streams inp.ctx.2 S ctx plain)
    (haddr : parseAddr E.inet (plain S) = some addr)
    (hallowed : blocked E (socks5HostParse (.ofBuf addr.host))
      (reachedHost E.inet uninit (.ofBuf addr.host)) = false)
    (hseg : seg ≠ []) (hlen : seg.length ≤ NET_IOBUF_LEN) (hS : seg <+: S)
    (hdemand : (E.crypto.decrypt (ctx []) seg).demand ≤ NET_IOBUF_LEN)
    (hconsumed : addr.consumed ≤ (plain seg).length)
    : ∃ m', pairStep E (.accepted E .SHADOWSOCKS inp)
          ((.client, .read), arrival inp uninit room seg) = .ok m'
        ∧ ∃ c', Connecting m' c' ∧ c'.dCtx = ctx seg
          ∧ m'.held = (plain seg).drop (encodedLen (.ofBuf addr.host))
          ∧ Io.connects m'.trace = [(reachedHost E.inet uninit (.ofBuf addr.host), addr.port)]
          ∧ Io.accepted .remote m'.trace = [] := by
  have hparse := parseAddr_of_isPrefix haddr (hstreams.mono_of_isPrefix hS) hconsumed
  have hpos := (parsed_of_parseAddr hparse).consumed_pos
  have hne : plain ([] ++ seg) ≠ plain [] := by
    rw [hstreams.plain_nil, List.nil_append]
    intro hnil
    rw [hnil] at hconsumed
    simp at hconsumed
    omega
  have hres : (E.crypto.decrypt inp.ctx.2 seg).res = .CRYPTO_OK (plain seg) := by
    rw [← hstreams.ctx_nil, hstreams.res [] seg hS hseg, if_neg hne, hstreams.plain_nil]
    rfl
  have hdCtx : (E.crypto.decrypt inp.ctx.2 seg).dCtx = ctx seg := by
    rw [← hstreams.ctx_nil, hstreams.dCtx [] seg hS hseg]
    rfl
  have hwaiting := (waiting_accepted E inp).withInp (arrival inp uninit room seg)
  have hread := netRead_arrival (.accepted E .SHADOWSOCKS inp) inp uninit room hseg hlen
  have huninit : ((Machine.accepted E .SHADOWSOCKS inp).withInp (arrival inp uninit room
    seg)).inp.uninit = uninit := rfl
  have hconnect : ((Machine.accepted E .SHADOWSOCKS inp).withInp (arrival inp uninit room
    seg)).inp.nonBlockConnect = true := rfl
  apply pairStep_ok rfl
  rw [wp_handler_first happ (by simpa using hwaiting.alive.client) rfl,
    wp_tcpClientOnRead hI hwaiting hseg hread (d := E.crypto.decrypt inp.ctx.2 seg) rfl]
  dsimp only
  rw [if_neg (by rw [← hstreams.ctx_nil]; omega), hres]
  dsimp only
  rw [hparse]
  dsimp only
  rw [huninit, hallowed, if_neg (by simp), hconnect, if_pos rfl, hdCtx]
  exact ⟨_, hwaiting.connecting rfl _ _ _ _ _ _ _, rfl, hwaiting.held .., rfl, rfl⟩

theorem pairStep_first_incomplete (happ : E.app = .xsServer) (hI : E.inet.Lawful)
    (hstreams : E.crypto.Streams inp.ctx.2 S ctx plain)
    (haddr : parseAddr E.inet (plain S) = some addr) (hseg : seg ≠ [])
    (hlen : seg.length ≤ NET_IOBUF_LEN) (hS : seg <+: S)
    (hbad : ¬((E.crypto.decrypt (ctx []) seg).demand ≤ NET_IOBUF_LEN
      ∧ addr.consumed ≤ (plain seg).length))
    {m' : Machine κ}
    (heq : pairStep E (.accepted E .SHADOWSOCKS inp)
      ((.client, .read), arrival inp uninit room seg) = .ok m')
    : m'.Dead := by
  have hwaiting := (waiting_accepted E inp).withInp (arrival inp uninit room seg)
  have hread := netRead_arrival (.accepted E .SHADOWSOCKS inp) inp uninit room hseg hlen
  apply post_of_pairStep rfl _ heq
  rw [wp_handler_first happ (by simpa using hwaiting.alive.client) rfl,
    wp_tcpClientOnRead hI hwaiting hseg hread (d := E.crypto.decrypt inp.ctx.2 seg) rfl]
  dsimp only
  rw [← hstreams.ctx_nil]
  split
  . trivial
  . next hdemand =>
    rw [hstreams.res [] seg hS hseg, hstreams.plain_nil, List.nil_append]
    by_cases hplain : plain seg = []
    . rw [if_pos hplain]
      apply Machine.dead_closed
      exact fun _ => ⟨rfl, rfl, rfl, rfl⟩
    . rw [if_neg hplain, List.length_nil, List.drop_zero]
      dsimp only
      cases hparse : parseAddr E.inet (plain seg) with
      | none =>
        apply Machine.dead_closed
        exact fun _ => ⟨rfl, rfl, rfl, rfl⟩
      | some addr' =>
        -- An address that is found in the first part is the one of the stream.
        have haddr' := parseAddr_of_isPrefix_right hparse (hstreams.mono_of_isPrefix hS)
        rw [haddr] at haddr'
        simp only [Option.some.injEq] at haddr'
        rw [haddr'] at hbad
        exact absurd ⟨by omega, (parsed_of_parseAddr hparse).consumed_le⟩ hbad

theorem run_schedule_iff (happ : E.app = .xsServer) (hI : E.inet.Lawful)
    (hstreams : E.crypto.Streams inp.ctx.2 S ctx plain)
    (haddr : parseAddr E.inet (plain S) = some addr)
    (hallowed : blocked E (socks5HostParse (.ofBuf addr.host))
      (reachedHost E.inet uninit (.ofBuf addr.host)) = false)
    (hroom : (plain S).length ≤ room) {segs : List (List Byte)} (hsegs : Readable (seg :: segs))
    (hS : (seg :: segs).flatten = S)
    (hdemand : (E.crypto.decrypt (ctx []) seg).demand ≤ NET_IOBUF_LEN)
    (hconsumed : addr.consumed ≤ (plain seg).length) (connects : List (CString × Nat))
    (payload : List Byte)
    : (∃ m', run (pairStep E) (.accepted E .SHADOWSOCKS inp) (schedule inp uninit room (seg :: segs))
          = .ok m'
        ∧ m'.Alive ∧ Io.connects m'.trace = connects ∧ Io.accepted .remote m'.trace = payload)
        ↔ Complete E.crypto ctx plain seg segs
          ∧ [(reachedHost E.inet uninit (.ofBuf addr.host), addr.port)] = connects
          ∧ (plain seg).drop (encodedLen (.ofBuf addr.host)) ++ (plain S).drop (plain seg).length
              = payload := by
  obtain ⟨hseg, hlen⟩ := hsegs seg (List.mem_cons_self ..)
  have hsegs' : Readable segs := fun seg hmem => hsegs seg (List.mem_cons_of_mem _ hmem)
  rw [List.flatten_cons] at hS
  have hS' : seg <+: S := ⟨segs.flatten, hS⟩
  obtain ⟨m₁, heq₁, c, hconnecting, hctx, hheld, hconnects, haccepted⟩ :=
    pairStep_first room happ hI hstreams haddr hallowed hseg hlen hS' hdemand hconsumed
  obtain ⟨m₂, heq₂, hestablished, haccepted₂, hconnects₂⟩ :
      ∃ m₂, pairStep E m₁ ((.remote, .write), arrival inp uninit room []) = .ok m₂
        ∧ Established m₂ c ∧ Io.accepted .remote m₂.trace = Io.accepted .remote m₁.trace ++ m₁.held
        ∧ Io.connects m₂.trace = Io.connects m₁.trace := by
    apply pairStep_ok (by simp [TcpConn.registered, hconnecting.we])
    apply wp_connected happ (hconnecting.withInp _) rfl rfl
    have hle := (hstreams.mono_of_isPrefix hS').length_le
    have : m₁.held.length ≤ room := by
      rw [hheld, List.length_drop]
      omega
    exact this
  rw [schedule, run, heq₁]
  dsimp only
  rw [run, heq₂]
  dsimp only
  rw [run_established_iff happ hstreams hroom hsegs' (by rw [hS]) hestablished hctx, hconnects₂,
    haccepted₂, haccepted, hconnects, hheld, hS, List.nil_append]

theorem drop_append_drop_iff {a b : List Byte} (hab : a <+: b) (n : Nat)
    : a.drop n ++ b.drop a.length = b.drop n ↔ n ≤ a.length ∨ a = b := by
  obtain ⟨x, rfl⟩ := hab
  rw [List.drop_left, List.drop_append, List.append_cancel_left_eq]
  constructor
  . intro h
    have hlen := congrArg List.length h
    rw [List.length_drop] at hlen
    by_cases hx : x = []
    . right
      rw [hx, List.append_nil]
    . left
      have := List.length_pos_iff.mpr hx
      omega
  . intro h
    rcases h with h | h
    . rw [Nat.sub_eq_zero_of_le h, List.drop_zero]
    . rw [List.self_eq_append_right] at h
      rw [h, List.drop_nil]

end

/--
The stream whose parts are `segs` leads to a connection to `host` and `port` that has been handed
`payload`, whatever was in memory before.
-/
def Delivers (E : Env κ) (m : Machine κ) (inp : Inputs κ) (room : Nat) (segs : List (List Byte))
    (host : CString) (port : Nat) (payload : List Byte) : Prop :=
  ∀ uninit, ∃ m', run (pairStep E) m (schedule inp uninit room segs) = .ok m' ∧ m'.Alive
    ∧ Io.connects m'.trace = [(host, port)] ∧ Io.accepted .remote m'.trace = payload

/--
The ways to cut the stream `S` that xs-server is prepared for, where the plaintext of the stream starts
with the address `addr`.
-/
structure Uncut (E : Env κ) (ctx : List Byte → κ) (plain : List Byte → List Byte) (S : List Byte)
    (segs : List (List Byte)) (addr : Socks5Addr) : Prop where
  complete : Complete E.crypto ctx plain [] segs
  address : addr.consumed ≤ (plain (segs.headD [])).length
  encoded : encodedLen (.ofBuf addr.host) ≤ (plain (segs.headD [])).length
    ∨ plain (segs.headD []) = plain S
  encodes : E.inet.Encodes (.ofBuf addr.host)

end Server

/--
How xs-server handles a stream does not depend on how the stream is cut, as long as no cut is in the
address or leaves a part that completes nothing.
-/
theorem delivers_iff (E : Env κ) (happ : E.app = .xsServer) (hI : E.inet.Lawful) (inp : Inputs κ)
    (m : Machine κ) (hm : tcpServerOnAccept E (TcpServer.new.machine .absent inp) = .ok () m)
    (S : List Byte) (ctx : List Byte → κ) (plain : List Byte → List Byte)
    (hstreams : E.crypto.Streams inp.ctx.2 S ctx plain) (addr : Socks5Addr)
    (haddr : parseAddr E.inet (plain S) = some addr)
    (hallowed : ∀ uninit, Server.blocked E (socks5HostParse (.ofBuf addr.host))
      (reachedHost E.inet uninit (.ofBuf addr.host)) = false)
    (room : Nat) (hroom : (plain S).length ≤ room) (segs : List (List Byte))
    (hsegs : Readable segs) (hS : segs.flatten = S)
    : Server.Delivers E m inp room segs (reachedHost E.inet .zero (.ofBuf addr.host)) addr.port
          ((plain S).drop (encodedLen (.ofBuf addr.host)))
        ↔ Server.Uncut E ctx plain S segs addr := by
  rw [tcpServerOnAccept_eq E (by simp [happ]), happ, App.clientType] at hm
  simp only [EStateM.Result.ok.injEq, true_and] at hm
  subst hm
  cases segs with
  | nil =>
    -- The empty stream has no address.
    have hpos := (parsed_of_parseAddr haddr).consumed_pos
    have hle := (parsed_of_parseAddr haddr).consumed_le
    rw [← hS, List.flatten_nil, hstreams.plain_nil, List.length_nil] at hle
    omega
  | cons seg segs =>
    obtain ⟨hseg, hlen⟩ := hsegs seg (List.mem_cons_self ..)
    have hS' : seg <+: S := ⟨segs.flatten, by simpa using hS⟩
    by_cases hfirst : (E.crypto.decrypt (ctx []) seg).demand ≤ NET_IOBUF_LEN
      ∧ addr.consumed ≤ (plain seg).length
    . obtain ⟨hdemand, hconsumed⟩ := hfirst
      have hpos := (parsed_of_parseAddr haddr).consumed_pos
      have hne : plain ([] ++ seg) ≠ plain [] := by
        rw [hstreams.plain_nil, List.nil_append]
        intro hnil
        rw [hnil, List.length_nil] at hconsumed
        omega
      simp only [Server.Delivers, Server.run_schedule_iff happ hI hstreams haddr (hallowed _) hroom hsegs
        hS hdemand hconsumed, Server.drop_append_drop_iff (hstreams.mono_of_isPrefix hS')]
      constructor
      . intro h
        refine ⟨⟨hne, hdemand, (h .zero).1⟩, hconsumed, (h .zero).2.2, ?_⟩
        rw [encodes_iff_reachedHost hI]
        intro uninit
        simpa using (h uninit).2.1
      . intro h uninit
        have hencodes := (encodes_iff_reachedHost hI _).mp h.encodes uninit
        exact ⟨h.complete.2.2, by rw [hencodes], h.encoded⟩
    . constructor
      . intro h
        obtain ⟨m', heq, halive, -⟩ := h .zero
        rw [Server.schedule, run] at heq
        split at heq
        . next m₁ hstep =>
          have hdead := Server.pairStep_first_incomplete happ hI hstreams haddr hseg hlen hS' hfirst hstep
          rw [run_dead hdead (by simp)] at heq
          simp only [Except.ok.injEq] at heq
          rw [← heq] at halive
          exact absurd halive hdead.not_alive
        . contradiction
      . intro h
        exact absurd ⟨h.complete.2.1, h.address⟩ hfirst

theorem streams_copy (S : List Byte) : Crypto.copy.Streams () S (fun _ => ()) id where
  ctx_nil := rfl
  plain_nil := rfl
  mono _ _ _ := List.prefix_append _ _
  dCtx _ _ _ _ := rfl
  res c d _ hd := by simp [Crypto.copy, hd]

theorem streams_stream (S : List Byte)
    : Crypto.stream.Streams false S (fun c => c != []) (·.drop 1) where
  ctx_nil := rfl
  plain_nil := rfl
  mono c d _ := (List.prefix_append c d).drop 1
  dCtx c d _ hd := by simp [Crypto.stream, hd]
  res c d _ hd := by
    cases c with
    | nil => simp [Crypto.stream]
    | cons b c => simp [Crypto.stream, hd]

theorem delivers_two_parts
    : let E := Env.default .xsServer .copy .text
      let inp := Inputs.idle ()
      Server.Delivers E (.accepted E .SHADOWSOCKS inp) inp 9 [[1, 127, 0, 0, 1, 0, 80, 9], [8]] localhost
        80 [9, 8] := by
  intro E inp
  have hencodes : E.inet.Encodes (.ofBuf localhost.bytes) := by decide +kernel
  have hhost : reachedHost E.inet .zero (.ofBuf localhost.bytes) = localhost := by decide +kernel
  have hiff := delivers_iff E rfl Inet.text_lawful inp _ (tcpServerOnAccept_eq E (by decide) inp)
    [1, 127, 0, 0, 1, 0, 80, 9, 8] _ id (streams_copy _) ⟨7, .ipv4, localhost.bytes, 80⟩
    (by decide +kernel) (fun _ => rfl) 9 (by decide) [[1, 127, 0, 0, 1, 0, 80, 9], [8]]
    (by simp [Readable, NET_IOBUF_LEN]) rfl
  rw [hhost] at hiff
  apply hiff.mpr
  exact ⟨⟨by decide, by decide, by decide, by decide, trivial⟩, by decide, .inl (by decide +kernel),
    hencodes⟩

/--
The cut is behind the initialisation vector: the connection is closed although nothing is wrong with
the stream.
-/
theorem closed_after_iv
    : let E := Env.default .xsServer .stream .text
      let inp := Inputs.idle false
      let S : List Byte := [0, 1, 127, 0, 0, 1, 0, 80, 9]
      let segs : List (List Byte) := [[0], [1, 127, 0, 0, 1, 0, 80, 9]]
      tcpServerOnAccept E (TcpServer.new.machine .absent inp) = .ok () (.accepted E .SHADOWSOCKS inp)
        ∧ E.crypto.Streams inp.ctx.2 S (fun c => c != []) (·.drop 1)
        ∧ parseAddr E.inet (S.drop 1) = some ⟨7, .ipv4, localhost.bytes, 80⟩
        ∧ Readable segs ∧ segs.flatten = S
        ∧ ∃ m', run (pairStep E) (.accepted E .SHADOWSOCKS inp) (Server.schedule inp .zero 9 segs)
            = .ok m'
          ∧ (m'.conn .client).err = .ERROR_SHADOWSOCKS_DECRYPT ∧ (m'.conn .client).live = false
          ∧ Io.connects m'.trace = [] := by
  intro E inp S segs
  exact ⟨tcpServerOnAccept_eq E (by decide) inp, streams_stream S, by decide +kernel,
    by simp [segs, Readable, NET_IOBUF_LEN], rfl, exists_ok_of_eval _ (by decide +kernel)⟩

end Xsocks
