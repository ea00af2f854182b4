import Xsocks.Tcp.Impl.Pipe
import Xsocks.Tcp.Lemmas.Trace

/-!
This module contains the rules for `tcpPipe` and `tcpPipeWrite` over any write handler of the
destination: what the handler has to establish such that the relay establishes `Q`.
-/

namespace Xsocks

open Wp

variable {κ : Type}

inductive Proto.Plain : Proto κ → Prop where
  | raw : Plain .raw
  | socks5 (addrbufDest : Sds) : Plain (.socks5 ⟨.SERVER, .STREAM, addrbufDest⟩)

theorem TcpConn.advance_zero (c : TcpConn κ) : c.advance 0 = c := by
  cases c
  simp [TcpConn.advance]

namespace Machine

def piping (m : Machine κ) (src dst : Side) : Machine κ :=
  (m.log (.pipe src dst)).upd dst fun d => { d with pipe := some src, piped := true }

def filled (m : Machine κ) (src dst : Side) (n : Nat) : Machine κ :=
  let m := m.upd src fun c => { c with rbufOff := c.rbufOff + n }
  let off := (m.conn src).rbufOff
  m.upd dst fun d => { d with wbuf := some (d.wbuf.getD (src, 0)), wbufLen := off }

def suspended (m : Machine κ) (src dst : Side) : Machine κ :=
  (m.upd dst fun d => { d with we := true }).upd src fun c => { c with re := false }

def released (m : Machine κ) (src dst : Side) : Machine κ :=
  let m := m.upd src fun c => { c with rbufOff := 0 }
  let m := m.upd dst fun d => { d with wbuf := none, wbufLen := 0 }
  (m.upd dst fun d => { d with we := false }).upd src fun c => { c with re := true }

def advanced (m : Machine κ) (dst : Side) (n : Int) : Machine κ :=
  m.upd dst fun d => d.advance n

def piped (m : Machine κ) (src dst : Side) (nwrite : Int) : Machine κ :=
  let m := m.advanced dst nwrite
  if 0 < (m.conn dst).wbufLen then m.suspended src dst else m.released src dst

def resumed (m : Machine κ) (src dst : Side) : Machine κ :=
  let m := m.upd src fun c => { c with rbufOff := 0 }
  let m := m.upd dst fun d => { d with wbuf := none, wbufLen := 0 }
  (m.upd src fun c => { c with re := true }).upd dst fun d => { d with we := false }

def pipeWritten (m : Machine κ) (dst : Side) (nwrite : Int) : Machine κ :=
  let m := m.upd dst fun d => if 0 < nwrite then d.advance nwrite else d
  m.upd dst fun d => { d with we := true }

def pending (m : Machine κ) (dst : Side) : List Byte :=
  match (m.conn dst).wbuf with
  | none => []
  | some (owner, off) => (m.conn owner).rbuf.read off (m.conn dst).wbufLen.toNat

variable {m : Machine κ} {s t src dst : Side}

@[simp]
theorem trace_piped (nwrite : Int) : (m.piped src dst nwrite).trace = m.trace := by
  unfold piped
  dsimp only
  split <;> rfl

theorem pipeWritten_eq (n : Nat)
    : m.pipeWritten dst n = (m.advanced dst n).upd dst fun d => { d with we := true } := by
  unfold pipeWritten advanced
  dsimp only
  congr 2
  funext d
  split
  . rfl
  . next h =>
    have : n = 0 := by omega
    rw [this]
    exact (TcpConn.advance_zero d).symm

theorem pending_of_none (h : (m.conn dst).wbuf = none) : m.pending dst = [] := by
  simp [pending, h]

theorem pending_of_some {owner : Side} {off : Nat} (h : (m.conn dst).wbuf = some (owner, off))
    : m.pending dst = (m.conn owner).rbuf.read off (m.conn dst).wbufLen.toNat := by
  simp [pending, h]

@[simp]
theorem usable_piping : (m.piping src dst).Usable t ↔ m.Usable t := by
  simp [piping]

@[simp]
theorem alive_piping : (m.piping src dst).Alive ↔ m.Alive := by
  simp [piping]

@[simp]
theorem usable_filled (n : Nat) : (m.filled src dst n).Usable t ↔ m.Usable t := by
  simp [filled]

@[simp]
theorem alive_filled (n : Nat) : (m.filled src dst n).Alive ↔ m.Alive := by
  simp [filled]

@[simp]
theorem usable_advanced (n : Int) : (m.advanced dst n).Usable t ↔ m.Usable t := by
  simp [advanced, TcpConn.advance]

@[simp]
theorem alive_advanced (n : Int) : (m.advanced dst n).Alive ↔ m.Alive := by
  simp [advanced, TcpConn.advance]

@[simp]
theorem usable_suspended : (m.suspended src dst).Usable t ↔ m.Usable t := by
  simp [suspended]

@[simp]
theorem alive_suspended : (m.suspended src dst).Alive ↔ m.Alive := by
  simp [suspended]

@[simp]
theorem usable_released : (m.released src dst).Usable t ↔ m.Usable t := by
  simp [released]

@[simp]
theorem alive_released : (m.released src dst).Alive ↔ m.Alive := by
  simp [released]

@[simp]
theorem usable_resumed : (m.resumed src dst).Usable t ↔ m.Usable t := by
  simp [resumed]

@[simp]
theorem alive_resumed : (m.resumed src dst).Alive ↔ m.Alive := by
  simp [resumed]

structure Owned (src dst : Side) (m : Machine κ) : Prop where
  pipe : (m.conn dst).piped = true → (m.conn dst).pipe = some src
  wbuf : ∀ p ∈ (m.conn dst).wbuf, p.1 = src
  wbuf_ne : (m.conn dst).wbufLen ≠ 0 → (m.conn dst).wbuf ≠ none

theorem Owned.congr {m' : Machine κ} (h : m.Owned src dst)
    (hdst : (m'.conn dst).wbuf = (m.conn dst).wbuf ∧ (m'.conn dst).wbufLen = (m.conn dst).wbufLen
      ∧ (m'.conn dst).piped = (m.conn dst).piped ∧ (m'.conn dst).pipe = (m.conn dst).pipe)
    : m'.Owned src dst := by
  obtain ⟨hwbuf, hwbufLen, hpiped, hpipe⟩ := hdst
  constructor
  case pipe =>
    rw [hpiped, hpipe]
    exact h.pipe
  case wbuf =>
    rw [hwbuf]
    exact h.wbuf
  case wbuf_ne =>
    rw [hwbuf, hwbufLen]
    exact h.wbuf_ne

theorem Owned.piping (h : m.Owned src dst) : (m.piping src dst).Owned src dst := by
  constructor
  case pipe => simp [Machine.piping]
  case wbuf => simpa [Machine.piping] using h.wbuf
  case wbuf_ne => simpa [Machine.piping] using h.wbuf_ne

theorem wbuf_filled (n : Nat)
    : ((m.filled src dst n).conn dst).wbuf = some ((m.conn dst).wbuf.getD (src, 0)) := by
  simp [filled]

theorem Owned.filled (h : m.Owned src dst) (n : Nat) : (m.filled src dst n).Owned src dst := by
  constructor
  case pipe => simpa [Machine.filled] using h.pipe
  case wbuf =>
    rw [wbuf_filled]
    intro p hp
    rw [← Option.some.inj hp]
    cases hwbuf : (m.conn dst).wbuf with
    | none => rfl
    | some q => exact h.wbuf q hwbuf
  case wbuf_ne => simp [wbuf_filled]

theorem Owned.advanced (h : m.Owned src dst) (hwbuf_ne : (m.conn dst).wbuf ≠ none) (n : Int)
    : (m.advanced dst n).Owned src dst := by
  constructor
  case pipe => simpa [Machine.advanced, TcpConn.advance] using h.pipe
  case wbuf =>
    have heq : ((m.advanced dst n).conn dst).wbuf
        = (m.conn dst).wbuf.map fun p => (p.1, p.2 + n.toNat) := by
      simp [Machine.advanced, TcpConn.advance]
    rw [heq]
    intro p hp
    obtain ⟨q, hq, hqp⟩ := Option.map_eq_some_iff.mp hp
    rw [← hqp]
    exact h.wbuf q hq
  case wbuf_ne => simpa [Machine.advanced, TcpConn.advance] using fun _ => hwbuf_ne

theorem Owned.piped (h : m.Owned src dst) (hwbuf_ne : (m.conn dst).wbuf ≠ none) (n : Int)
    : (m.piped src dst n).Owned src dst := by
  have hadvanced := h.advanced hwbuf_ne n
  unfold Machine.piped
  dsimp only
  split
  . apply hadvanced.congr
    simp [suspended]
  . constructor
    case pipe => simpa [released] using hadvanced.pipe
    all_goals simp [released]

theorem Owned.resumed (h : m.Owned src dst) : (m.resumed src dst).Owned src dst := by
  constructor
  case pipe => simpa [Machine.resumed] using h.pipe
  all_goals simp [Machine.resumed]

theorem Owned.pipeWritten (h : m.Owned src dst) (hwbuf_ne : (m.conn dst).wbuf ≠ none) (n : Nat)
    : (m.pipeWritten dst n).Owned src dst := by
  rw [pipeWritten_eq]
  apply (h.advanced hwbuf_ne n).congr
  simp

end Machine

section

variable {m : Machine κ} {s : Side} {F : Fault → Machine κ → Prop} {E : Env κ}

theorem wp_connRead (h : m.Alive) (hs : m.Usable s) (hp : (m.conn s).proto.Plain) (off : Nat)
    (bufLen : Int) (Q : Int → Machine κ → Prop)
    : wp (connRead E s off bufLen) Q F m ↔ wp (tcpRead s off bufLen) Q F m := by
  rw [connRead, wp_bind, wp_deref hs]
  cases hproto : (m.conn s).proto with
  | raw => rfl
  | shadowsocks c =>
    rw [hproto] at hp
    cases hp
  | socks5 c =>
    rw [hproto] at hp
    cases hp with
    | socks5 addrbufDest =>
      simp only [tcpSocks5ConnRead, derefSocks5, wp_bind, wp_deref hs, hproto, wp_pure, reduceCtorEq,
        ↓reduceIte, wp_tcpRead h hs]
      split
      . simp [ERR]
      . split
        . simp [ERR]
        . split
          . rfl
          . have hproto' : ∀ data, (((m.received s off data).restarted s).conn s).proto
                = .socks5 ⟨.SERVER, .STREAM, addrbufDest⟩ := by
              intro data
              simp [Machine.restarted, Machine.received, hproto]
            simp [hs, hproto']

variable {src dst : Side}

theorem wp_writeWbuf (hdst : m.Usable dst) {p : Side × Nat} (hwbuf : (m.conn dst).wbuf = some p)
    (howner : m.Usable p.1) (Q : Int → Machine κ → Prop)
    : wp (writeWbuf E dst) Q F m
        ↔ wp (connWrite E dst (m.pending dst) (m.conn dst).wbufLen) Q F m := by
  simp [writeWbuf, hdst, hwbuf, howner, Machine.pending]

def Machine.PipePost (src dst : Side) (nread : Int) (Q : Int → Machine κ → Prop) (nwrite : Int)
    (m : Machine κ) : Prop :=
  (nwrite = ERR → Q ERR m)
    ∧ (nwrite ≠ ERR → m.Usable src ∧ m.Usable dst ∧ Q nread (m.piped src dst nwrite))

theorem wp_tcpPipe_rest {nread nwrite : Int} {Q : Int → Machine κ → Prop} (hsrc : m.Usable src)
    (hdst : m.Usable dst) (hQ : Q nread (m.piped src dst nwrite))
    : wp (do
        assign dst fun d => d.advance nwrite
        let d ← deref dst
        if 0 < d.wbufLen then
          addEventWrite dst
          delEventRead src
          return nread
        else
          assign src fun c => { c with rbufOff := 0 }
          assign dst fun d => { d with wbuf := none, wbufLen := 0 }
          delEventWrite dst
          addEventRead src
          return nread) Q F m := by
  rw [wp_bind, wp_assign hdst, ← Machine.advanced, wp_bind, wp_deref (by simpa using hdst)]
  rw [Machine.piped] at hQ
  split
  . next hlen =>
    rw [if_pos hlen] at hQ
    simpa [addEventWrite, delEventRead, hsrc, hdst, Machine.suspended] using hQ
  . next hlen =>
    rw [if_neg hlen] at hQ
    simpa [addEventRead, delEventWrite, hsrc, hdst, Machine.released] using hQ

/--
The rule for `tcpPipe` over any read handler: it can end without bytes, otherwise the bytes it got are
offered to `dst`.
-/
theorem wp_tcpPipe_of_connRead (hsrc : m.Usable src) (hdst : m.Usable dst)
    {Q : Int → Machine κ → Prop}
    (hread : wp (connRead E src (m.conn src).rbufOff ((m.conn src).rbufLen - (m.conn src).rbufOff))
      (fun nread m' => (nread ≤ 0 → Q nread m')
        ∧ (0 < nread → m'.Usable src ∧ m'.Usable dst ∧ (∀ p ∈ (m'.conn dst).wbuf, m'.Usable p.1)
            ∧ let m' := m'.filled src dst nread.toNat
              wp (connWrite E dst (m'.pending dst) (m'.conn dst).wbufLen)
                (Machine.PipePost src dst nread Q) F m'))
      F (m.piping src dst))
    : wp (tcpPipe E src dst) Q F m := by
  rw [tcpPipe, wp_bind, wp_logIo, wp_bind, wp_deref (by simpa using hsrc), wp_bind,
    wp_assign (by simpa using hdst), ← Machine.piping, wp_bind, Machine.conn_log]
  apply wp_mono hread
  . intro nread m' ⟨hstop, hgo⟩
    split
    . next hle => simpa using hstop hle
    . next hpos =>
      obtain ⟨hsrc, hdst, hown, hwrite⟩ := hgo (by omega)
      rw [wp_bind, wp_assign hsrc, wp_bind, wp_deref (by simpa using hsrc), wp_bind,
        wp_assign (by simpa using hdst), wp_bind, ← Machine.filled]
      have howner : (m'.filled src dst nread.toNat).Usable
          ((m'.conn dst).wbuf.getD (src, 0)).1 := by
        cases hwbuf : (m'.conn dst).wbuf with
        | none => simpa using hsrc
        | some p => simpa using hown p hwbuf
      have hwbuf : ((m'.filled src dst nread.toNat).conn dst).wbuf
          = some ((m'.conn dst).wbuf.getD (src, 0)) := by
        simp [Machine.filled]
      rw [wp_writeWbuf (by simpa using hdst) hwbuf howner]
      apply wp_mono hwrite
      . intro nwrite m' ⟨herr, hok⟩
        split
        . next heq => simpa using herr heq
        . next heq =>
          obtain ⟨hsrc, hdst, hQ⟩ := hok heq
          exact wp_tcpPipe_rest hsrc hdst hQ
      . intro e m' he
        exact he
  . intro e m' he
    exact he

theorem wp_tcpPipe (h : m.Alive) (hsrc : m.Usable src) (hdst : m.Usable dst)
    (hp : (m.conn src).proto.Plain) (hown : ∀ p ∈ (m.conn dst).wbuf, m.Usable p.1)
    {Q : Int → Machine κ → Prop}
    (hread : netTcpRead ((m.conn src).rbufLen - (m.conn src).rbufOff) (m.inp.reads.headD [])
          = ⟨ERR, false, []⟩
      → Q ERR ((((m.piping src dst).received src (m.conn src).rbufOff []).withErr src
          .TCP_ERROR_READ).closed src))
    (hclosed : netTcpRead ((m.conn src).rbufLen - (m.conn src).rbufOff) (m.inp.reads.headD [])
          = ⟨0, true, []⟩
      → Q ERR ((((m.piping src dst).received src (m.conn src).rbufOff []).withErr src
          .TCP_ERROR_CLOSED).closed src))
    (hnothing : netTcpRead ((m.conn src).rbufLen - (m.conn src).rbufOff) (m.inp.reads.headD [])
          = ⟨0, false, []⟩
      → Q 0 (((m.piping src dst).received src (m.conn src).rbufOff []).restarted src))
    (hwrite : ∀ data : List Byte, data ≠ []
      → (data.length : Int) ≤ (m.conn src).rbufLen - (m.conn src).rbufOff
      → netTcpRead ((m.conn src).rbufLen - (m.conn src).rbufOff) (m.inp.reads.headD [])
          = ⟨data.length, false, data⟩
      → let m' := (((m.piping src dst).received src (m.conn src).rbufOff data).restarted src).filled
          src dst data.length
        wp (connWrite E dst (m'.pending dst) (m'.conn dst).wbufLen)
          (Machine.PipePost src dst data.length Q) F m')
    : wp (tcpPipe E src dst) Q F m := by
  have hp' : ((m.piping src dst).conn src).proto.Plain := by
    have : ((m.piping src dst).conn src).proto = (m.conn src).proto := by
      simp only [Machine.piping, Machine.conn_upd]
      split <;> simp
    rw [this]
    exact hp
  apply wp_tcpPipe_of_connRead hsrc hdst
  rw [wp_connRead (by simpa using h) (by simpa using hsrc) hp',
    wp_tcpRead (by simpa using h) (by simpa using hsrc)]
  dsimp only
  generalize hlen : (m.conn src).rbufLen - (m.conn src).rbufOff = bufLen at *
  rcases netTcpRead_cases bufLen ((m.piping src dst).inp.reads.headD []) with heq | heq | heq | heq
  . simp only [Machine.netRead, heq]
    simpa [ERR] using hread heq
  . simp only [Machine.netRead, heq]
    simpa [ERR] using hclosed heq
  . simp only [Machine.netRead, heq]
    simpa [ERR] using hnothing heq
  . obtain ⟨data, hne, hle, heq⟩ := heq
    have hpos : 0 < data.length := List.length_pos_iff.mpr hne
    simp only [Machine.netRead, heq]
    rw [if_neg (by rw [ERR]; omega), if_neg (by simp)]
    refine ⟨fun hle => by omega, fun _ => ⟨by simpa using hsrc, by simpa using hdst, ?_, ?_⟩⟩
    . intro p hp
      have hwbuf : ((((m.piping src dst).received src (m.conn src).rbufOff data).restarted src).conn
          dst).wbuf = (m.conn dst).wbuf := by
        simp [Machine.restarted, Machine.received, Machine.piping]
      rw [hwbuf] at hp
      simpa using hown p hp
    . exact hwrite data hne (by omega) heq

theorem wp_tcpPipeWrite (hdst : m.Usable dst) (hpipe : (m.conn dst).pipe = some src)
    (hsrc : m.Usable src)
    (hwbuf : (m.conn dst).wbufLen ≠ 0 → ∃ p, (m.conn dst).wbuf = some p ∧ m.Usable p.1)
    {Q : Int → Machine κ → Prop}
    (hdone : (m.conn dst).wbufLen = 0 → Q OK (m.resumed src dst))
    (hwrite : (m.conn dst).wbufLen ≠ 0
      → wp (connWrite E dst (m.pending dst) (m.conn dst).wbufLen)
          (fun nwrite m => (nwrite = ERR → Q ERR m)
            ∧ (nwrite ≠ ERR → m.Usable dst ∧ Q nwrite (m.pipeWritten dst nwrite))) F m)
    : wp (tcpPipeWrite E dst) Q F m := by
  rw [tcpPipeWrite, wp_bind, wp_deref hdst]
  split
  . next hlen =>
    simpa [hpipe, hsrc, hdst, addEventRead, delEventWrite, Machine.resumed] using hdone hlen
  . next hlen =>
    obtain ⟨p, hwbuf, howner⟩ := hwbuf hlen
    rw [wp_bind, wp_writeWbuf hdst hwbuf howner]
    apply wp_mono (hwrite hlen)
    . intro nwrite m' ⟨herr, hok⟩
      split
      . next heq => simpa [heq] using herr heq
      . next heq =>
        obtain ⟨hdst, hQ⟩ := hok heq
        have hlive : ∀ c : TcpConn κ, (if 0 < nwrite then c.advance nwrite else c).live = c.live := by
          intro c
          split <;> rfl
        rw [wp_bind, wp_assign hdst]
        simpa [addEventWrite, hdst, hlive, Machine.pipeWritten] using hQ
    . intro e m' he
      exact he

end

end Xsocks
