import Mathlib.Logic.Function.Basic
import Xsocks.Lib.Run
import Xsocks.Protocol.Lemmas.Crypto
import Xsocks.Protocol.Lemmas.Inet
import Xsocks.Tcp.Impl.Loop
import Xsocks.Tcp.Lemmas.Pipe

/-!
This module contains the runs of `tcpPipe` and `tcpPipeWrite` over the two connections of a pair, and
the proof that a relay between raw connections loses, duplicates and reorders nothing.
-/

namespace Xsocks

open Wp Run

variable {κ : Type}

/--
The pipes that are in use: each source is piped to its peer. The peer of a connection can be the other
one or the connection itself.
-/
structure Pipes where
  source : Side → Bool
  peer : Side → Side
  peer_inj : Function.Injective peer

def Side.other : Side → Side
  | client => remote
  | remote => client

/-- The client is piped to the remote and the remote to the client. -/
def Pipes.both : Pipes where
  source _ := true
  peer := Side.other
  peer_inj s t h := by cases s <;> cases t <;> simp_all [Side.other]

/-- What the event loop finds ready: the source of a pipe for reading, or its peer for writing. -/
inductive PipeEvent where
  | readable (src : Side)
  | writable (src : Side)
  deriving DecidableEq

def exec {α : Type} (x : Proc κ α) (m : Machine κ) : Except Fault (Machine κ) :=
  match x m with
  | .ok _ m => .ok m
  | .error f _ => .error f

def pipeStep (E : Env κ) (P : Pipes) (m : Machine κ) (a : PipeEvent × Inputs κ)
    : Except Fault (Machine κ) :=
  match a.1 with
  | .readable src =>
    if P.source src ∧ (m.conn src).re then
      exec (tcpPipe E src (P.peer src)) (m.withInp a.2)
    else .ok m
  | .writable src =>
    if P.source src ∧ (m.conn (P.peer src)).we then
      exec (tcpConnWriteHandler E (P.peer src)) (m.withInp a.2)
    else .ok m

def leaves {α : Type} (x : Proc κ α) (m : Machine κ) : Machine κ :=
  match x m with
  | .ok _ m => m
  | .error _ m => m

theorem leaves_of_wp {α : Type} {x : Proc κ α} {I J : Machine κ → Prop} (hJ : ∀ m, I m → J m)
    {m : Machine κ} (h : wp x (fun _ => I) (fun _ => J) m)
    : J (leaves x m) ∧ ∀ m', exec x m = .ok m' → I m' := by
  unfold wp at h
  unfold leaves exec
  split at h
  . next heq =>
    rw [heq]
    refine ⟨hJ _ h, ?_⟩
    intro m' hm'
    rw [← Except.ok.inj hm']
    exact h
  . next heq =>
    rw [heq]
    exact ⟨h, by simp⟩

/-- The state that `pipeStep` ends in, also if it ends with a fault. -/
def pipeLeaves (E : Env κ) (P : Pipes) (m : Machine κ) (a : PipeEvent × Inputs κ) : Machine κ :=
  match a.1 with
  | .readable src =>
    if P.source src ∧ (m.conn src).re then leaves (tcpPipe E src (P.peer src)) (m.withInp a.2) else m
  | .writable src =>
    if P.source src ∧ (m.conn (P.peer src)).we then
      leaves (tcpConnWriteHandler E (P.peer src)) (m.withInp a.2)
    else m

namespace Machine

/--
The part of the source's buffer that still has to be written: none while the source is being read,
otherwise the end of what was read.
-/
inductive Cursor (m : Machine κ) (src dst : Side) : Prop where
  | idle
      (wbuf : (m.conn dst).wbuf = none)
      (wbufLen : (m.conn dst).wbufLen = 0)
      (rbufOff : (m.conn src).rbufOff = 0)
      (re : (m.conn src).re = true)
      (pipe : (m.conn dst).piped = true → (m.conn dst).pipe = some src)
  | busy
      (off : Nat)
      (wbuf : (m.conn dst).wbuf = some (src, off))
      (wbufLen : off + (m.conn dst).wbufLen = (m.conn src).rbufOff)
      (wbufLen_nonneg : 0 ≤ (m.conn dst).wbufLen)
      (we : (m.conn dst).we = true)
      (re : (m.conn src).re = false)
      (piped : (m.conn dst).piped = true)
      (pipe : (m.conn dst).pipe = some src)

structure Piping (m : Machine κ) (src dst : Side) : Prop where
  usable_src : m.Usable src
  usable_dst : m.Usable dst
  raw_src : (m.conn src).proto = .raw
  raw_dst : (m.conn dst).proto = .raw
  connected : (m.conn dst).connected = true
  room : (m.conn src).rbufOff ≤ (m.conn src).rbufLen
  cursor : m.Cursor src dst
  relayed : Relayed src dst m.trace
  flow : Io.accepted dst m.trace ++ m.pending dst = Io.received src m.trace
  open_src : (m.conn src).err ≠ .TCP_ERROR_CLOSED

structure Outside (src dst : Side) (m m' : Machine κ) : Prop where
  alive : m'.Alive ↔ m.Alive
  usable : ∀ s, m'.Usable s ↔ m.Usable s
  conn : ∀ s, (m'.conn s).proto = (m.conn s).proto ∧ (m'.conn s).connected = (m.conn s).connected
    ∧ (m'.conn s).err = (m.conn s).err ∧ (m'.conn s).rbufLen = (m.conn s).rbufLen
  reading : ∀ s, s ≠ src → (m'.conn s).rbuf = (m.conn s).rbuf
    ∧ (m'.conn s).rbufOff = (m.conn s).rbufOff ∧ (m'.conn s).re = (m.conn s).re
  writing : ∀ s, s ≠ dst → (m'.conn s).wbuf = (m.conn s).wbuf
    ∧ (m'.conn s).wbufLen = (m.conn s).wbufLen ∧ (m'.conn s).we = (m.conn s).we
    ∧ (m'.conn s).piped = (m.conn s).piped ∧ (m'.conn s).pipe = (m.conn s).pipe
  trace : ∃ ios, m'.trace = m.trace ++ ios
    ∧ ∀ io ∈ ios, (∀ s, s ≠ src → io.dataIn s = []) ∧ (∀ s, s ≠ dst → io.dataOut s = [])

namespace Outside

variable {src dst : Side} {m m' m'' : Machine κ}

theorem trans (h : Outside src dst m m') (h' : Outside src dst m' m'') : Outside src dst m m'' := by
  constructor
  case alive => rw [h'.alive, h.alive]
  case usable =>
    intro s
    rw [h'.usable, h.usable]
  case conn =>
    intro s
    simp only [h'.conn s, h.conn s, and_self]
  case reading =>
    intro s hs
    simp only [h'.reading s hs, h.reading s hs, and_self]
  case writing =>
    intro s hs
    simp only [h'.writing s hs, h.writing s hs, and_self]
  case trace =>
    obtain ⟨ios, htrace, hios⟩ := h.trace
    obtain ⟨ios', htrace', hios'⟩ := h'.trace
    refine ⟨ios ++ ios', by rw [htrace', htrace, List.append_assoc], ?_⟩
    intro io hio
    rcases List.mem_append.mp hio with hio | hio
    . exact hios io hio
    . exact hios' io hio

theorem refl : Outside src dst m m := by
  constructor <;> simp

theorem withInp {inp : Inputs κ} : Outside src dst m (m.withInp inp) := by
  constructor <;> simp

theorem upd_src (h : Outside src dst m m') {f : TcpConn κ → TcpConn κ}
    (hf : ∀ c, (f c).live = c.live ∧ (f c).proto = c.proto ∧ (f c).connected = c.connected
      ∧ (f c).err = c.err ∧ (f c).rbufLen = c.rbufLen ∧ (f c).wbuf = c.wbuf
      ∧ (f c).wbufLen = c.wbufLen ∧ (f c).we = c.we ∧ (f c).piped = c.piped
      ∧ (f c).pipe = c.pipe)
    : Outside src dst m (m'.upd src f) := by
  apply h.trans
  constructor
  case alive => simp [hf]
  case usable => simp [hf]
  case conn => simp [hf]
  case reading =>
    intro s hs
    simp [hs]
  case writing => simp [hf]
  case trace => exact ⟨[], by simp⟩

theorem upd_dst (h : Outside src dst m m') {f : TcpConn κ → TcpConn κ}
    (hf : ∀ c, (f c).live = c.live ∧ (f c).proto = c.proto ∧ (f c).connected = c.connected
      ∧ (f c).err = c.err ∧ (f c).rbufLen = c.rbufLen ∧ (f c).rbuf = c.rbuf
      ∧ (f c).rbufOff = c.rbufOff ∧ (f c).re = c.re)
    : Outside src dst m (m'.upd dst f) := by
  apply h.trans
  constructor
  case alive => simp [hf]
  case usable => simp [hf]
  case conn => simp [hf]
  case reading => simp [hf]
  case writing =>
    intro s hs
    simp [hs]
  case trace => exact ⟨[], by simp⟩

theorem popReads (h : Outside src dst m m') : Outside src dst m m'.popReads := by
  apply h.trans
  constructor <;> simp

theorem popWrites (h : Outside src dst m m') : Outside src dst m m'.popWrites := by
  apply h.trans
  constructor <;> simp

theorem log (h : Outside src dst m m') {io : Io} (hin : ∀ s, s ≠ src → io.dataIn s = [])
    (hout : ∀ s, s ≠ dst → io.dataOut s = [])
    : Outside src dst m (m'.log io) := by
  apply h.trans
  constructor
  case trace => exact ⟨[io], rfl, by simpa using ⟨hin, hout⟩⟩
  all_goals simp

theorem piping (h : Outside src dst m m') : Outside src dst m (m'.piping src dst) := by
  apply upd_dst
  . exact h.log (by simp [Io.dataIn]) (by simp [Io.dataOut])
  . simp

theorem received (h : Outside src dst m m') (off : Nat) (data : List Byte)
    : Outside src dst m (m'.received src off data) := by
  apply log
  . apply upd_src
    . apply popReads
      apply h.upd_src
      simp
    . simp
  . intro s hs
    simp [Io.dataIn, hs.symm]
  . simp [Io.dataOut]

theorem restarted (h : Outside src dst m m') : Outside src dst m (m'.restarted src) :=
  h.upd_src (by simp)

theorem filled (h : Outside src dst m m') (n : Nat) : Outside src dst m (m'.filled src dst n) := by
  unfold Machine.filled
  exact upd_dst (h.upd_src (by simp)) (by simp)

theorem sent (h : Outside src dst m m') (bufLen : Int) (data : List Byte)
    : Outside src dst m ((m'.log (.write dst bufLen)).sent dst data) := by
  apply log
  . apply popWrites
    exact h.log (by simp [Io.dataIn]) (by simp [Io.dataOut])
  . simp [Io.dataIn]
  . intro s hs
    simp [Io.dataOut, hs.symm]

theorem piped (h : Outside src dst m m') (nwrite : Int)
    : Outside src dst m (m'.piped src dst nwrite) := by
  have h : Outside src dst m (m'.advanced dst nwrite) := h.upd_dst (by simp [TcpConn.advance])
  unfold Machine.piped
  dsimp only
  split
  . exact upd_src (h.upd_dst (by simp)) (by simp)
  . unfold released
    exact upd_src (upd_dst (upd_dst (h.upd_src (by simp)) (by simp)) (by simp)) (by simp)

theorem resumed (h : Outside src dst m m') : Outside src dst m (m'.resumed src dst) := by
  unfold Machine.resumed
  exact upd_dst (upd_src (upd_dst (h.upd_src (by simp)) (by simp)) (by simp)) (by simp)

theorem pipeWritten (h : Outside src dst m m') (nwrite : Int)
    : Outside src dst m (m'.pipeWritten dst nwrite) := by
  unfold Machine.pipeWritten
  apply upd_dst
  . apply h.upd_dst
    intro c
    split <;> simp [TcpConn.advance]
  . simp

end Outside

structure Offered (src dst : Side) (m m' : Machine κ) (data : List Byte) : Prop where
  outside : Outside src dst m m'
  wbuf : (m'.conn dst).wbuf = some (src, 0)
  wbufLen : (m'.conn dst).wbufLen = data.length
  rbufOff : (m'.conn src).rbufOff = data.length
  rbuf : (m'.conn src).rbuf.read 0 data.length = data
  piped : (m'.conn dst).piped = true
  pipe : (m'.conn dst).pipe = some src
  trace : m'.trace = m.trace ++ [.pipe src dst, .recv src data]
  writes : m'.inp.writes = m.inp.writes

theorem offered_filled {m : Machine κ} {src dst : Side} (wbuf : (m.conn dst).wbuf = none)
    (rbufOff : (m.conn src).rbufOff = 0) (data : List Byte)
    : Offered src dst m
        ((((m.piping src dst).received src 0 data).restarted src).filled src dst data.length)
        data := by
  constructor
  case outside => exact (Outside.refl.piping.received _ _).restarted.filled _
  all_goals simp [filled, restarted, received, piping, popReads, wbuf, rbufOff]

theorem Offered.pending {m m' : Machine κ} {src dst : Side} {data : List Byte}
    (h : Offered src dst m m' data)
    : m'.pending dst = data := by
  rw [pending_of_some h.wbuf, h.wbufLen, Int.toNat_natCast, h.rbuf]

end Machine

theorem Relayed.send {src dst : Side} {tr : List Io} (h : Relayed src dst tr) {data rest : List Byte}
    (hflow : Io.accepted dst tr ++ (data ++ rest) = Io.received src tr) (bufLen : Int)
    : Relayed src dst (tr ++ [.write dst bufLen, .send dst data]) := by
  have hwrite : Relayed src dst (tr ++ [.write dst bufLen]) := by
    apply h.snoc_of_dataOut
    simp [Io.dataOut]
  have hsend : Relayed src dst (tr ++ [.write dst bufLen] ++ [.send dst data]) := by
    apply hwrite.snoc
    simp [← hflow, Io.dataIn, Io.dataOut]
  simpa using hsend

theorem Relayed.append_of_dataOut {src dst : Side} {tr : List Io} (h : Relayed src dst tr)
    (ios : List Io) (hios : ∀ io ∈ ios, io.dataOut dst = [])
    : Relayed src dst (tr ++ ios) := by
  induction ios generalizing tr with
  | nil => simpa using h
  | cons io ios ih =>
    have := ih (h.snoc_of_dataOut (hios io (by simp))) (fun io h => hios io (by simp [h]))
    simpa using this

namespace Machine

theorem Piping.outside {m m' : Machine κ} {s t src dst : Side} (h : m.Piping s t)
    (ho : Outside src dst m m') (hs : s ≠ src) (ht : t ≠ dst)
    : m'.Piping s t := by
  obtain ⟨hproto_s, -, herr, hlen⟩ := ho.conn s
  obtain ⟨hproto_t, hconn, -, -⟩ := ho.conn t
  obtain ⟨hrbuf, hoff, hre⟩ := ho.reading s hs
  obtain ⟨hwbuf, hwlen, hwe, hpiped, hpipe⟩ := ho.writing t ht
  obtain ⟨ios, htrace, hios⟩ := ho.trace
  have hin : Io.received s ios = [] := by
    simp only [Io.received, List.flatMap_eq_nil_iff]
    intro io hio
    exact (hios io hio).1 s hs
  have hout : Io.accepted t ios = [] := by
    simp only [Io.accepted, List.flatMap_eq_nil_iff]
    intro io hio
    exact (hios io hio).2 t ht
  have hpending : m'.pending t = m.pending t := by
    cases h.cursor with
    | idle wbuf => rw [pending_of_none wbuf, pending_of_none (by rw [hwbuf, wbuf])]
    | busy off wbuf =>
      rw [pending_of_some wbuf, pending_of_some (by rw [hwbuf, wbuf]), hrbuf, hwlen]
  constructor
  case usable_src => exact (ho.usable s).mpr h.usable_src
  case usable_dst => exact (ho.usable t).mpr h.usable_dst
  case raw_src => rw [hproto_s, h.raw_src]
  case raw_dst => rw [hproto_t, h.raw_dst]
  case connected => rw [hconn, h.connected]
  case room => rw [hoff, hlen]; exact h.room
  case relayed =>
    rw [htrace]
    apply h.relayed.append_of_dataOut
    intro io hio
    exact (hios io hio).2 t ht
  case flow =>
    rw [htrace, Io.accepted_append, Io.received_append, hin, hout, hpending, List.append_nil,
      List.append_nil]
    exact h.flow
  case open_src => rw [herr]; exact h.open_src
  case cursor =>
    cases h.cursor with
    | idle wbuf wbufLen rbufOff re pipe =>
      apply Cursor.idle
      . rw [hwbuf, wbuf]
      . rw [hwlen, wbufLen]
      . rw [hoff, rbufOff]
      . rw [hre, re]
      . rw [hpiped, hpipe]; exact pipe
    | busy off wbuf wbufLen wbufLen_nonneg we re piped pipe =>
      apply Cursor.busy off
      . rw [hwbuf, wbuf]
      . rw [hwlen, hoff, wbufLen]
      . rw [hwlen]; exact wbufLen_nonneg
      . rw [hwe, we]
      . rw [hre, re]
      . rw [hpiped, piped]
      . rw [hpipe, pipe]

structure Ended (m : Machine κ) (src dst : Side) : Prop where
  live : (m.conn src).live = false
  re : (m.conn src).re = false
  we : (m.conn dst).we = false
  relayed : Relayed src dst m.trace
  eof : (m.conn src).err = .TCP_ERROR_CLOSED
    → Io.accepted dst m.trace = Io.received src m.trace

variable {m : Machine κ} {s src dst : Side} {err : TcpError}

theorem conn_closed (h : m.Usable src) : (m.closed s).conn src = (m.conn src).close := by
  rw [closed, conn_freed, if_neg, conn_log]
  rintro ⟨h1, h2⟩
  have := h.exists_remote h1
  simp [this] at h2

theorem ended_closed (hsrc : m.Usable src) (hdst : m.Usable dst) (hr : Relayed src dst m.trace)
    (heof : ((m.withErr s err).conn src).err = .TCP_ERROR_CLOSED
      → Io.accepted dst m.trace = Io.received src m.trace)
    : ((m.withErr s err).closed s).Ended src dst := by
  have hsrc' : (m.withErr s err).Usable src := by simpa using hsrc
  have hdst' : (m.withErr s err).Usable dst := by simpa using hdst
  constructor
  case live => rw [conn_closed hsrc', TcpConn.close]
  case re => rw [conn_closed hsrc', TcpConn.close]
  case we => rw [conn_closed hdst', TcpConn.close]
  case relayed => exact relayed_closed (m := m.withErr s err) hr s
  case eof =>
    rw [err_closed, received_closed, accepted_closed]
    exact heof

inductive Stepped (src dst : Side) (m m' : Machine κ) : Prop where
  | piping (outside : Outside src dst m m') (piping : m'.Piping src dst)
  | ended (m₁ : Machine κ) (s : Side) (err : TcpError) (outside : Outside src dst m m₁)
      (eq : m' = (m₁.withErr s err).closed s) (eof : err = .TCP_ERROR_CLOSED → s = src)
      (ended : m'.Ended src dst)

theorem Outside.write_error {m' : Machine κ} (h : Outside src dst m m') (hsrc : m'.Usable src)
    (hdst : m'.Usable dst) (hrelayed : Relayed src dst m'.trace)
    (hopen : (m'.conn src).err ≠ .TCP_ERROR_CLOSED) (bufLen : Int)
    : Stepped src dst m
        ((((m'.log (.write dst bufLen)).sent dst []).withErr dst .TCP_ERROR_WRITE).closed dst) := by
  apply Stepped.ended _ dst _ (h.sent _ _) rfl (by simp)
  apply ended_closed (by simpa using hsrc) (by simpa using hdst)
  . simpa [Machine.sent] using
      hrelayed.append_of_dataOut [.write dst bufLen, .send dst []] (by simp [Io.dataOut])
  . simp only [withErr, err_upd, Machine.sent, conn_log, conn_popWrites]
    split
    . simp
    . intro heq
      exact absurd heq hopen

inductive Relaying (P : Pipes) (m : Machine κ) : Prop where
  | running (alive : m.Alive) (piping : ∀ src, P.source src = true → m.Piping src (P.peer src))
  | ended (ended : ∀ src, P.source src = true → m.Ended src (P.peer src))

theorem Stepped.relaying {P : Pipes} {m' : Machine κ} (halive : m.Alive)
    (hp : ∀ src, P.source src = true → m.Piping src (P.peer src))
    (h : Stepped src (P.peer src) m m')
    : m'.Relaying P := by
  cases h with
  | piping outside piping =>
    apply Relaying.running
    . exact outside.alive.mpr halive
    . intro t ht
      by_cases heq : t = src
      . rw [heq]
        exact piping
      . exact (hp t ht).outside outside heq (P.peer_inj.ne heq)
  | ended m₁ s err outside eq eof ended =>
    apply Relaying.ended
    intro t ht
    by_cases heq : t = src
    . rw [heq]
      exact ended
    . have hm₁ := (hp t ht).outside outside heq (P.peer_inj.ne heq)
      rw [eq]
      apply ended_closed hm₁.usable_src hm₁.usable_dst hm₁.relayed
      intro herr
      rw [withErr, err_upd] at herr
      split at herr
      . next hts =>
        have := eof herr
        exact absurd (hts.trans this) heq
      . exact absurd herr hm₁.open_src

end Machine

section

variable {m : Machine κ} {s src dst : Side} {F : Fault → Machine κ → Prop} {E : Env κ}

theorem wp_connWrite_raw (h : m.Alive) (hs : m.Usable s) (hp : (m.conn s).proto = .raw)
    (buf : List Byte) (bufLen : Int) {Q : Int → Machine κ → Prop}
    (herr : Q ERR ((((m.log (.write s bufLen)).sent s []).withErr s .TCP_ERROR_WRITE).closed s))
    (hok : ∀ n : Nat, n ≤ bufLen.toNat → Q n ((m.log (.write s bufLen)).sent s (buf.take n)))
    : wp (connWrite E s buf bufLen) Q F m := by
  rw [connWrite, wp_bind, wp_deref hs, wp_bind, wp_logIo]
  simp only [hp]
  rw [wp_tcpWrite (by simpa using h) (by simpa using hs)]
  dsimp only
  rcases netTcpWrite_cases bufLen ((m.log (.write s bufLen)).inp.writes.headD []) with heq | heq
  . rw [Machine.netWrite, heq]
    simpa [ERR] using herr
  . obtain ⟨n, hle, heq⟩ := heq
    rw [Machine.netWrite, heq, if_neg (by rw [ERR]; omega), Int.toNat_natCast]
    exact hok n hle

theorem Machine.piping_piped (data : List Byte) (hsrc : m.Usable src) (hdst : m.Usable dst)
    (hraw_src : (m.conn src).proto = .raw) (hraw_dst : (m.conn dst).proto = .raw)
    (hconn : (m.conn dst).connected = true) (hopen : (m.conn src).err ≠ .TCP_ERROR_CLOSED)
    (hpipe : (m.conn dst).pipe = some src) (hpiped : (m.conn dst).piped = true)
    (hwbuf : (m.conn dst).wbuf = some (src, 0))
    (hwbufLen : (m.conn dst).wbufLen = data.length) (hoff : (m.conn src).rbufOff = data.length)
    (hroom : (m.conn src).rbufOff ≤ (m.conn src).rbufLen)
    (hrbuf : (m.conn src).rbuf.read 0 data.length = data) (hrelayed : Relayed src dst m.trace)
    {n : Nat} (hn : n ≤ data.length)
    (hflow : Io.accepted dst m.trace ++ data.drop n = Io.received src m.trace)
    : (m.piped src dst n).Piping src dst := by
  have hlen : ((m.advanced dst n).conn dst).wbufLen = data.length - n := by
    simp [advanced, TcpConn.advance, hwbufLen]
  have hsame : Outside src dst m (m.piped src dst n) := Outside.refl.piped n
  obtain ⟨hproto_src, -, herr, hrbufLen⟩ := hsame.conn src
  obtain ⟨hproto_dst, hconn', -, -⟩ := hsame.conn dst
  -- The two ways out of `tcpPipe` differ in the cursor only.
  have hcursor : (m.piped src dst n).Cursor src dst
      ∧ (m.piped src dst n).pending dst = data.drop n
      ∧ ((m.piped src dst n).conn src).rbufOff ≤ ((m.piped src dst n).conn src).rbufLen := by
    unfold piped
    dsimp only
    rw [hlen]
    split
    . next hlt =>
      have hwbuf : (((m.advanced dst n).suspended src dst).conn dst).wbuf = some (src, n) := by
        simp [suspended, advanced, TcpConn.advance, hwbuf]
      refine ⟨?_, ?_, ?_⟩
      . apply Cursor.busy n hwbuf
        case wbufLen =>
          have hleft : (((m.advanced dst n).suspended src dst).conn dst).wbufLen = data.length - n := by
            simp [suspended, advanced, TcpConn.advance, hwbufLen]
          have hkept : (((m.advanced dst n).suspended src dst).conn src).rbufOff = data.length := by
            simp [suspended, advanced, TcpConn.advance, hoff]
          rw [hleft, hkept]
          omega
        all_goals
          simp [suspended, advanced, TcpConn.advance, hwbufLen, hpipe, hpiped, hn]
      . rw [pending_of_some hwbuf, ← hrbuf, Mem.drop_read, Nat.zero_add]
        simp [suspended, advanced, TcpConn.advance, hwbufLen]
      . simpa [suspended, advanced, TcpConn.advance] using hroom
    . next hge =>
      have hn : n = data.length := by omega
      have hwbuf : (((m.advanced dst n).released src dst).conn dst).wbuf = none := by
        simp [released]
      refine ⟨?_, ?_, ?_⟩
      . apply Cursor.idle hwbuf <;>
          simp [released, advanced, TcpConn.advance, hpipe]
      . rw [pending_of_none hwbuf, hn, List.drop_length]
      . simp [released, advanced, TcpConn.advance]
        omega
  obtain ⟨hcursor, hpending, hroom⟩ := hcursor
  constructor
  case usable_src => exact (hsame.usable src).mpr hsrc
  case usable_dst => exact (hsame.usable dst).mpr hdst
  case raw_src => rw [hproto_src, hraw_src]
  case raw_dst => rw [hproto_dst, hraw_dst]
  case connected => rw [hconn', hconn]
  case room => exact hroom
  case cursor => exact hcursor
  case relayed => rw [trace_piped]; exact hrelayed
  case flow => rw [trace_piped, hpending]; exact hflow
  case open_src => rw [herr]; exact hopen

theorem tcpPipe_raw_write {m' : Machine κ} {data : List Byte} (h : m.Alive)
    (hp : m.Piping src dst) (wbuf : (m.conn dst).wbuf = none) (ho : Machine.Offered src dst m m' data)
    (hle : data.length ≤ (m.conn src).rbufLen)
    : wp (connWrite E dst (m'.pending dst) (m'.conn dst).wbufLen)
        (Machine.PipePost src dst data.length fun _ m' => Machine.Stepped src dst m m') F m' := by
  have hpending := ho.pending
  obtain ⟨houtside, hwbuf, hwlen, hoff, hrbuf, hpiped, hpipe, htrace, -⟩ := ho
  have hrelayed : Relayed src dst m'.trace := by
    rw [htrace]
    exact hp.relayed.append_of_dataOut _ (by simp [Io.dataOut])
  have hflow : Io.accepted dst m'.trace ++ data = Io.received src m'.trace := by
    have := hp.flow
    rw [Machine.pending_of_none wbuf, List.append_nil] at this
    simp [htrace, this, Io.dataIn, Io.dataOut]
  obtain ⟨hproto_src, -, herr_src, hlen_src⟩ := houtside.conn src
  obtain ⟨hproto_dst, hconn_dst, -, -⟩ := houtside.conn dst
  have hsrc := (houtside.usable src).mpr hp.usable_src
  have hdst := (houtside.usable dst).mpr hp.usable_dst
  rw [hpending, hwlen]
  apply wp_connWrite_raw (houtside.alive.mpr h) hdst (by rw [hproto_dst, hp.raw_dst])
  . refine ⟨fun _ => ?_, fun hne => absurd rfl hne⟩
    apply houtside.write_error hsrc hdst hrelayed
    rw [herr_src]
    exact hp.open_src
  . intro n hn
    rw [Int.toNat_natCast] at hn
    refine ⟨fun heq => absurd heq (by rw [ERR]; omega), fun _ => ?_⟩
    refine ⟨by simpa using hsrc, by simpa using hdst, ?_⟩
    apply Machine.Stepped.piping ((houtside.sent _ _).piped _)
    have hflow' : Io.accepted dst (m'.trace ++ [.write dst data.length, .send dst (data.take n)])
        ++ data.drop n = Io.received src
          (m'.trace ++ [.write dst data.length, .send dst (data.take n)]) := by
      simp [← hflow, Io.dataIn, Io.dataOut]
    apply Machine.piping_piped data
    case hrelayed =>
      rw [← List.take_append_drop n data] at hflow
      simpa [Machine.sent] using hrelayed.send hflow data.length
    case hflow => simpa [Machine.sent] using hflow'
    all_goals
      simp [Machine.sent, hsrc, hdst, hproto_src, hproto_dst, hconn_dst, herr_src, hlen_src,
        hp.raw_src, hp.raw_dst, hp.connected, hp.open_src, hpiped, hpipe, hwbuf, hwlen, hoff, hle, hrbuf, hn]

theorem tcpPipe_raw (h : m.Alive) (hp : m.Piping src dst) (hre : (m.conn src).re = true)
    : wp (tcpPipe E src dst) (fun _ m' => Machine.Stepped src dst m m') F m := by
  obtain ⟨hsrc, hdst, hraw_src, hraw_dst, hconn, hroom, hcursor, hrelayed, hflow, hopen⟩ := id hp
  cases hcursor with
  | busy _ _ _ _ _ re =>
    rw [re] at hre
    contradiction
  | idle wbuf wbufLen rbufOff re pipe =>
    rw [Machine.pending_of_none wbuf, List.append_nil] at hflow
    have hrelayed' : ∀ data, Relayed src dst
        ((m.piping src dst).received src (m.conn src).rbufOff data).trace := by
      intro data
      have := hrelayed.append_of_dataOut [.pipe src dst, .recv src data] (by simp [Io.dataOut])
      simpa [Machine.received, Machine.piping] using this
    apply wp_tcpPipe h hsrc hdst
    case hp => rw [hraw_src]; exact .raw
    case hown => simp [wbuf]
    case hread =>
      intro _
      apply Machine.Stepped.ended _ src _ (Machine.Outside.refl.piping.received _ _) rfl (by simp)
      apply Machine.ended_closed (by simpa using hsrc) (by simpa using hdst)
      . exact hrelayed' []
      . simp [Machine.withErr]
    case hclosed =>
      intro _
      apply Machine.Stepped.ended _ src _ (Machine.Outside.refl.piping.received _ _) rfl (by simp)
      apply Machine.ended_closed (by simpa using hsrc) (by simpa using hdst)
      . exact hrelayed' []
      . intro _
        simpa [Machine.received, Machine.piping, Io.dataIn, Io.dataOut] using hflow
    case hnothing =>
      intro _
      apply Machine.Stepped.piping (Machine.Outside.refl.piping.received _ _).restarted
      have hwbuf : ((((m.piping src dst).received src (m.conn src).rbufOff []).restarted src).conn
          dst).wbuf = none := by
        simpa [Machine.restarted, Machine.received, Machine.piping] using wbuf
      constructor
      case usable_src => simpa using hsrc
      case usable_dst => simpa using hdst
      case relayed => exact hrelayed' []
      case flow =>
        rw [Machine.pending_of_none hwbuf, List.append_nil]
        simpa [Machine.restarted, Machine.received, Machine.piping, Io.dataIn, Io.dataOut] using hflow
      case cursor =>
        apply Machine.Cursor.idle hwbuf <;>
          simp [Machine.restarted, Machine.received, Machine.piping, wbufLen, rbufOff, re]
      all_goals simpa [Machine.restarted, Machine.received, Machine.piping]
    case hwrite =>
      intro data hne hle _
      rw [rbufOff] at hle ⊢
      exact tcpPipe_raw_write h hp wbuf (Machine.offered_filled wbuf rbufOff data) (by omega)

theorem Machine.piping_resumed (hp : m.Piping src dst) (hlen : (m.conn dst).wbufLen = 0)
    (hpipe : (m.conn dst).pipe = some src)
    : (m.resumed src dst).Piping src dst := by
  have hflow := hp.flow
  have hpending : m.pending dst = [] := by
    cases hp.cursor with
    | idle wbuf => exact pending_of_none wbuf
    | busy off wbuf => simp [pending_of_some wbuf, hlen]
  have hroom := hp.room
  have hwbuf : ((m.resumed src dst).conn dst).wbuf = none := by simp [resumed]
  constructor
  case usable_src => simpa using hp.usable_src
  case usable_dst => simpa using hp.usable_dst
  case relayed => exact hp.relayed
  case flow =>
    rw [pending_of_none hwbuf]
    rw [hpending] at hflow
    exact hflow
  case cursor => apply Cursor.idle hwbuf <;> simp [resumed, hpipe]
  case room =>
    simp only [resumed, rbufOff_upd, rbufLen_upd, ite_self, ↓reduceIte]
    omega
  all_goals simp [resumed, hp.raw_src, hp.raw_dst, hp.connected, hp.open_src]

theorem Machine.piping_pipeWritten (hp : m.Piping src dst) {off : Nat}
    (wbuf : (m.conn dst).wbuf = some (src, off))
    (hlen : off + (m.conn dst).wbufLen = (m.conn src).rbufOff) (hre : (m.conn src).re = false)
    (hpiped : (m.conn dst).piped = true) (hpipe : (m.conn dst).pipe = some src)
    {n : Nat} (hn : n ≤ (m.conn dst).wbufLen.toNat) (hnonneg : 0 ≤ (m.conn dst).wbufLen)
    : (((m.log (.write dst (m.conn dst).wbufLen)).sent dst ((m.pending dst).take n)).pipeWritten dst
        n).Piping src dst := by
  rw [pipeWritten_eq]
  have hpending := pending_of_some wbuf
  have hwbuf : ((((m.log (.write dst (m.conn dst).wbufLen)).sent dst
      ((m.pending dst).take n)).advanced dst n |>.upd dst fun d => { d with we := true }).conn
        dst).wbuf = some (src, off + n) := by
    simp [advanced, sent, wbuf, TcpConn.advance]
  have hflow : Io.accepted dst (m.trace ++ [.write dst (m.conn dst).wbufLen,
        .send dst ((m.pending dst).take n)]) ++ (m.pending dst).drop n
      = Io.received src (m.trace ++ [.write dst (m.conn dst).wbufLen,
        .send dst ((m.pending dst).take n)]) := by
    simp [← hp.flow, Io.dataIn, Io.dataOut]
  constructor
  case usable_src => simpa using hp.usable_src
  case usable_dst => simpa using hp.usable_dst
  case relayed =>
    have hflow := hp.flow
    rw [← List.take_append_drop n (m.pending dst)] at hflow
    simpa [sent, advanced] using hp.relayed.send hflow (m.conn dst).wbufLen
  case flow =>
    rw [pending_of_some hwbuf]
    rw [hpending, Mem.drop_read] at hflow
    rw [hpending]
    simpa [sent, advanced, TcpConn.advance, Int.toNat_sub'] using hflow
  case cursor =>
    apply Cursor.busy (off + n) hwbuf
    case wbufLen =>
      simp [sent, advanced, TcpConn.advance]
      omega
    case wbufLen_nonneg =>
      simp [sent, advanced, TcpConn.advance]
      omega
    all_goals simp [sent, advanced, TcpConn.advance, hre, hpiped, hpipe]
  all_goals
    simp [sent, advanced, TcpConn.advance, hp.raw_src, hp.raw_dst, hp.connected, hp.open_src, hp.room]

theorem tcpConnWriteHandler_raw (h : m.Alive) (hp : m.Piping src dst)
    : wp (tcpConnWriteHandler E dst) (fun _ m' => Machine.Stepped src dst m m') F m := by
  obtain ⟨hsrc, hdst, hraw_src, hraw_dst, hconn, hroom, hcursor, hrelayed, hflow, hopen⟩ := id hp
  simp only [tcpConnWriteHandler, handleTcpConnection, wp_bind, wp_deref hdst, hconn, ↓reduceIte,
    wp_pure, ne_eq, not_true_eq_false]
  split
  . next hpiped =>
    have hpipe : (m.conn dst).pipe = some src := by
      cases hcursor with
      | idle _ _ _ _ pipe => exact pipe hpiped
      | busy _ _ _ _ _ _ _ pipe => exact pipe
    rw [wp_bind]
    apply wp_tcpPipeWrite hdst hpipe hsrc
    case hwbuf =>
      intro hne
      cases hcursor with
      | idle _ wbufLen => contradiction
      | busy off wbuf => exact ⟨(src, off), wbuf, hsrc⟩
    case hdone =>
      intro hlen
      exact .piping (.resumed .refl) (Machine.piping_resumed hp hlen hpipe)
    case hwrite =>
      intro hne
      cases hcursor with
      | idle _ wbufLen => contradiction
      | busy off wbuf wbufLen wbufLen_nonneg we re piped pipe =>
        apply wp_connWrite_raw h hdst hraw_dst
        . refine ⟨fun _ => ?_, fun hne => absurd rfl hne⟩
          exact Machine.Outside.refl.write_error hsrc hdst hrelayed hopen _
        . intro n hn
          refine ⟨fun heq => absurd heq (by rw [ERR]; omega), fun _ => ?_⟩
          refine ⟨by simpa using hdst, ?_⟩
          exact .piping (.pipeWritten (.sent .refl _ _) _)
            (Machine.piping_pipeWritten hp wbuf wbufLen re piped pipe hn wbufLen_nonneg)
  . next hpiped =>
    simp only [fireWrite, wp_bind, wp_deref hdst, wp_pure]
    exact .piping .refl hp

end

namespace Machine

structure PipeStart (m : Machine κ) (src dst : Side) : Prop where
  usable_src : m.Usable src
  usable_dst : m.Usable dst
  raw_src : (m.conn src).proto = .raw
  raw_dst : (m.conn dst).proto = .raw
  connected : (m.conn dst).connected = true
  rbufLen : 0 ≤ (m.conn src).rbufLen
  rbufOff : (m.conn src).rbufOff = 0
  wbuf : (m.conn dst).wbuf = none
  wbufLen : (m.conn dst).wbufLen = 0
  re : (m.conn src).re = true
  piped : (m.conn dst).piped = false
  open_src : (m.conn src).err ≠ .TCP_ERROR_CLOSED

structure RelayStart (P : Pipes) (m : Machine κ) : Prop where
  alive : m.Alive
  trace : m.trace = []
  start : ∀ src, P.source src = true → m.PipeStart src (P.peer src)

/--
What holds of a relay at all times: as long as the pair has not been closed, the bytes that `dst` has
not accepted yet are the ones in its `wbuf`, at the end of what stands in the buffer of `src`.
-/
structure Faithful (m : Machine κ) (src dst : Side) : Prop where
  relayed : Relayed src dst m.trace
  missing : (m.conn src).live = true
    → Io.accepted dst m.trace ++ m.pending dst = Io.received src m.trace
  inside : (m.conn src).live = true → (m.conn dst).wbufLen = 0
    ∨ ∃ off : Nat, (m.conn dst).wbuf = some (src, off)
        ∧ off + (m.conn dst).wbufLen = (m.conn src).rbufOff
  wbufLen : (m.conn src).live = true → 0 ≤ (m.conn dst).wbufLen
  rbufOff : (m.conn src).live = true → (m.conn src).rbufOff ≤ (m.conn src).rbufLen
  registered : (m.conn src).live = true → (m.conn src).re = true ∨ (m.conn dst).we = true
  eof : (m.conn src).err = .TCP_ERROR_CLOSED
    → Io.accepted dst m.trace = Io.received src m.trace

variable {m : Machine κ} {src dst : Side}

theorem PipeStart.piping (h : m.PipeStart src dst) (htrace : m.trace = []) : m.Piping src dst := by
  constructor
  case room =>
    rw [h.rbufOff]
    exact h.rbufLen
  case cursor =>
    apply Cursor.idle h.wbuf h.wbufLen h.rbufOff h.re
    simp [h.piped]
  case relayed =>
    rw [htrace]
    exact Relayed.nil
  case flow => simp [htrace, pending_of_none h.wbuf]
  case usable_src => exact h.usable_src
  case usable_dst => exact h.usable_dst
  case raw_src => exact h.raw_src
  case raw_dst => exact h.raw_dst
  case connected => exact h.connected
  case open_src => exact h.open_src

theorem Piping.faithful (h : m.Piping src dst) : m.Faithful src dst := by
  constructor
  case relayed => exact h.relayed
  case missing => exact fun _ => h.flow
  case inside =>
    intro _
    cases h.cursor with
    | idle _ wbufLen => exact .inl wbufLen
    | busy off wbuf wbufLen => exact .inr ⟨off, wbuf, wbufLen⟩
  case wbufLen =>
    intro _
    cases h.cursor with
    | idle _ wbufLen => omega
    | busy _ _ _ wbufLen_nonneg => exact wbufLen_nonneg
  case rbufOff => exact fun _ => h.room
  case registered =>
    intro _
    cases h.cursor with
    | idle _ _ _ re => exact .inl re
    | busy _ _ _ _ we => exact .inr we
  case eof => exact fun heq => absurd heq h.open_src

theorem Ended.faithful (h : m.Ended src dst) : m.Faithful src dst := by
  constructor
  case relayed => exact h.relayed
  case eof => exact h.eof
  all_goals simp [h.live]

theorem Piping.withInp (h : m.Piping src dst) (inp : Inputs κ)
    : (m.withInp inp).Piping src dst := by
  obtain ⟨hsrc, hdst, hraw_src, hraw_dst, hconn, hroom, hcursor, hrelayed, hflow, hopen⟩ := h
  refine ⟨⟨hsrc.1, hsrc.2⟩, ⟨hdst.1, hdst.2⟩, hraw_src, hraw_dst, hconn, hroom, ?_, hrelayed, hflow,
    hopen⟩
  cases hcursor with
  | idle wbuf wbufLen rbufOff re pipe => exact .idle wbuf wbufLen rbufOff re pipe
  | busy off wbuf wbufLen wbufLen_nonneg we re piped pipe =>
    exact .busy off wbuf wbufLen wbufLen_nonneg we re piped pipe

end Machine

theorem pipeStep_relaying {P : Pipes} {E : Env κ} {m : Machine κ} (h : m.Relaying P)
    (a : PipeEvent × Inputs κ)
    : ∃ m', pipeStep E P m a = .ok m' ∧ m'.Relaying P := by
  rcases a with ⟨ev, inp⟩
  cases h with
  | ended ended =>
    refine ⟨m, ?_, .ended ended⟩
    cases ev with
    | readable src =>
      simp only [pipeStep, ite_eq_right_iff]
      intro ⟨hs, hre⟩
      simp [(ended src hs).re] at hre
    | writable src =>
      simp only [pipeStep, ite_eq_right_iff]
      intro ⟨hs, hwe⟩
      simp [(ended src hs).we] at hwe
  | running alive piping =>
    have halive : (m.withInp inp).Alive := by simpa using alive
    have hpiping : ∀ src, P.source src = true → (m.withInp inp).Piping src (P.peer src) :=
      fun src hs => (piping src hs).withInp inp
    cases ev with
    | readable src =>
      simp only [pipeStep]
      split
      . next hs =>
        obtain ⟨_, m', heq, hstep⟩ :=
          exists_ok_of_wp (tcpPipe_raw (E := E) halive (hpiping src hs.1) hs.2)
        exact ⟨m', by rw [exec, heq], hstep.relaying halive hpiping⟩
      . exact ⟨m, rfl, .running alive piping⟩
    | writable src =>
      simp only [pipeStep]
      split
      . next hs =>
        obtain ⟨_, m', heq, hstep⟩ :=
          exists_ok_of_wp (tcpConnWriteHandler_raw (E := E) halive (hpiping src hs.1))
        exact ⟨m', by rw [exec, heq], hstep.relaying halive hpiping⟩
      . exact ⟨m, rfl, .running alive piping⟩

/--
Every run of the pipes between raw connections is free of faults and relays faithfully.
-/
theorem relay_faithful (E : Env κ) (P : Pipes) (m : Machine κ) (hm : m.RelayStart P)
    (as : List (PipeEvent × Inputs κ))
    : ∃ m', run (pipeStep E P) m as = .ok m'
        ∧ ∀ src, P.source src = true → m'.Faithful src (P.peer src) := by
  have hstart : m.Relaying P := .running hm.alive fun src hs => (hm.start src hs).piping hm.trace
  obtain ⟨m', hrun, h⟩ := exists_run (C := fun _ _ => True)
    (fun m a h _ => pipeStep_relaying h a) hstart (along_true _ m as)
  refine ⟨m', hrun, fun src hs => ?_⟩
  cases h with
  | running _ piping => exact (piping src hs).faithful
  | ended ended => exact (ended src hs).faithful

theorem relay_faithful_both
    : let c : TcpConn Unit := { TcpConn.new .raw true 60 with re := true }
      let m := Machine.pair c c ()
      ∃ m', run (pipeStep (.default .xsServer .copy .text) .both) m [
          (.readable .client, { Inputs.idle () with
            reads := [[.data [1, 2], .data [3]]], writes := [[.count 2]] }),
          (.readable .remote, { Inputs.idle () with
            reads := [[.data [4]]], writes := [[.error .EAGAIN]] }),
          (.writable .client, { Inputs.idle () with writes := [[.count 1]] }),
          (.writable .client, Inputs.idle ()),
          (.writable .remote, { Inputs.idle () with writes := [[.count 1]] })
        ] = .ok m' ∧ ∀ src, Pipes.both.source src = true → m'.Faithful src (Pipes.both.peer src) := by
  intro c m
  apply relay_faithful
  constructor
  case alive => exact Machine.alive_pair rfl rfl
  case trace => rfl
  case start =>
    intro src _
    constructor
    case usable_src => exact Machine.usable_pair rfl rfl _
    case usable_dst => exact Machine.usable_pair rfl rfl _
    case raw_src => cases src <;> rfl
    case raw_dst => cases src <;> rfl
    all_goals cases src <;> decide

end Xsocks
