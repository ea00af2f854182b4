import Xsocks.Tcp.Lemmas.Ciphertext
import Xsocks.Tcp.Lemmas.Relay

/-!
This module contains the relay from a connection that hands on its bytes to a shadowsocks connection.
`tcpPipe` counts plaintext where the write handler counts ciphertext, so the relay is faithful as long
as the two counts cannot be told apart.
-/

namespace Xsocks

open Wp Run Chunks

variable {κ : Type}

def Pipes.one (src : Side) : Pipes where
  source s := s = src
  peer := Side.other
  peer_inj := Pipes.both.peer_inj

namespace TcpShadowsocks

def FitsChunk (C : Crypto κ) (eCtx : κ) (data : List Byte) (ws : List WriteRes) : Prop :=
  ∀ ct eCtx', C.encrypt eCtx data = some (ct, eCtx')
    → ct.length = data.length ∨ netTcpWrite ct.length ws = ct.length

def Fits (C : Crypto κ) (c : TcpShadowsocks κ) (data : List Byte) (ws : List (List WriteRes))
    : Prop :=
  match c.state with
  | .INIT =>
    match C.encrypt c.eCtx c.addrbufDest with
    | none => True
    | some (_, eCtx) => FitsChunk C eCtx data (ws.tail.headD [])
  | _ => FitsChunk C c.eCtx data (ws.headD [])

end TcpShadowsocks

/-- The chunk that the event makes `tcpPipe` encrypt is not lengthened or it is accepted at once. -/
def FitsEvent (E : Env κ) (src : Side) (m : Machine κ) : PipeEvent × Inputs κ → Prop
  | (.readable s, inp) =>
    s = src → (m.conn src).re = true → ∀ c, (m.conn src.other).proto = .shadowsocks c
      → c.Fits E.crypto
          (netTcpRead ((m.conn src).rbufLen - (m.conn src).rbufOff) (inp.reads.headD [])).data
          inp.writes
  | (.writable _, _) => True

namespace Machine

inductive Agree (m : Machine κ) (src dst : Side) (c : TcpShadowsocks κ) : Prop where
  | idle
      (wbuf : (m.conn dst).wbuf = none)
      (wbufLen : (m.conn dst).wbufLen = 0)
      (rbufOff : (m.conn src).rbufOff = 0)
      (tmpBuf : c.tmpBuf = [])
      (pipe : (m.conn dst).piped = true → (m.conn dst).pipe = some src)
  | busy
      (off : Nat)
      (wbuf : (m.conn dst).wbuf = some (src, off))
      (wbufLen : (m.conn dst).wbufLen = c.unsent.length)
      (rbufOff : 0 < (m.conn src).rbufOff)
      (re : (m.conn src).re = false)
      (tmpBuf : c.unsent = [] → c.tmpBuf = [])
      (state : c.state ≠ .INIT)
      (pipe : (m.conn dst).pipe = some src)

/-- Two connections that can be piped, of which `dst` has encrypted the chunks `plain`. -/
structure Linked (E : Env κ) (eCtx : κ) (src dst : Side) (m : Machine κ) (c : TcpShadowsocks κ)
    (plain : List (List Byte)) : Prop where
  usable : m.Usable src
  handsOn : (m.conn src).proto.Plain
  connected : (m.conn dst).connected = true
  streaming : Writer.Streaming E dst eCtx plain m c
  bufLen : ∀ n, .write dst n ∈ m.trace → 0 ≤ n

structure Carrying (E : Env κ) (eCtx : κ) (header : List Byte) (src dst : Side) (m : Machine κ)
    (c : TcpShadowsocks κ) (plain : List (List Byte)) : Prop
    extends Linked E eCtx src dst m c plain where
  init : c.state = .INIT → c.addrbufDest = header ∧ plain = [] ∧ Io.received src m.trace = []
  flatten : c.state ≠ .INIT → plain.flatten = header ++ Io.received src m.trace

structure Encrypting (E : Env κ) (eCtx : κ) (header : List Byte) (src dst : Side) (m : Machine κ)
    (c : TcpShadowsocks κ) (plain : List (List Byte)) : Prop
    extends Carrying E eCtx header src dst m c plain where
  agree : m.Agree src dst c

structure Sealed (E : Env κ) (eCtx : κ) (header : List Byte) (src dst : Side) (m : Machine κ)
    : Prop where
  live : (m.conn src).live = false
  re : (m.conn src).re = false
  we : (m.conn dst).we = false
  sent : ∃ plain ct eCtx', encodeAll E.crypto.encrypt eCtx plain = some (ct, eCtx')
    ∧ Io.accepted dst m.trace <+: ct ∧ plain.flatten <+: header ++ Io.received src m.trace
  bufLen : ∀ n, .write dst n ∈ m.trace → 0 ≤ n

variable {E : Env κ} {eCtx : κ} {header : List Byte} {src dst : Side} {m : Machine κ}
  {c : TcpShadowsocks κ} {plain : List (List Byte)}

theorem sealed_closed (hsrc : m.Usable src) (hdst : m.Usable dst)
    (hsent : ∃ plain ct eCtx', encodeAll E.crypto.encrypt eCtx plain = some (ct, eCtx')
      ∧ Io.accepted dst m.trace <+: ct ∧ plain.flatten <+: header ++ Io.received src m.trace)
    (hbufLen : ∀ n, .write dst n ∈ m.trace → 0 ≤ n) (s : Side) (err : TcpError)
    : ((m.withErr s err).closed s).Sealed E eCtx header src dst := by
  have hsrc' : (m.withErr s err).Usable src := by simpa using hsrc
  have hdst' : (m.withErr s err).Usable dst := by simpa using hdst
  constructor
  case live => rw [conn_closed hsrc', TcpConn.close]
  case re => rw [conn_closed hsrc', TcpConn.close]
  case we => rw [conn_closed hdst', TcpConn.close]
  case sent =>
    rw [accepted_closed, received_closed]
    exact hsent
  case bufLen =>
    intro n hn
    exact hbufLen n (by simpa [withErr] using write_mem_closed hn)

theorem Linked.outside {m' : Machine κ} (h : Linked E eCtx src dst m c plain)
    (ho : Outside src dst m m') (haccepted : Io.accepted dst m'.trace = Io.accepted dst m.trace)
    (hbufLen : ∀ n, .write dst n ∈ m'.trace → .write dst n ∈ m.trace)
    : Linked E eCtx src dst m' c plain := by
  constructor
  case usable => exact (ho.usable src).mpr h.usable
  case handsOn =>
    rw [(ho.conn src).1]
    exact h.handsOn
  case connected =>
    rw [(ho.conn dst).2.1]
    exact h.connected
  case streaming =>
    apply h.streaming.unwritten
    constructor
    case alive => exact ho.alive
    case usable => exact ho.usable dst
    case proto =>
      rw [(ho.conn dst).1]
      exact h.streaming.proto
    case accepted => exact haccepted
    all_goals simp
  case bufLen => exact fun n hn => h.bufLen n (hbufLen n hn)

theorem Carrying.outside {m' : Machine κ} (h : Carrying E eCtx header src dst m c plain)
    (ho : Outside src dst m m') (haccepted : Io.accepted dst m'.trace = Io.accepted dst m.trace)
    (hreceived : Io.received src m'.trace = Io.received src m.trace)
    (hbufLen : ∀ n, .write dst n ∈ m'.trace → .write dst n ∈ m.trace)
    : Carrying E eCtx header src dst m' c plain where
  toLinked := h.toLinked.outside ho haccepted hbufLen
  init := by
    rw [hreceived]
    exact h.init
  flatten := by
    rw [hreceived]
    exact h.flatten

theorem Linked.ne (h : Linked E eCtx src dst m c plain) : src ≠ dst := by
  intro heq
  have hplain := h.handsOn
  rw [heq, h.streaming.proto] at hplain
  cases hplain

theorem remote_of_ne (hne : src ≠ dst) (hsrc : m.Usable src) (hdst : m.Usable dst)
    : m.remote = true := by
  cases src with
  | client =>
    cases dst with
    | client => contradiction
    | remote => exact hdst.exists_remote rfl
  | remote => exact hsrc.exists_remote rfl

theorem Carrying.sent (h : Carrying E eCtx header src dst m c plain)
    : ∃ plain ct eCtx', encodeAll E.crypto.encrypt eCtx plain = some (ct, eCtx')
        ∧ Io.accepted dst m.trace <+: ct ∧ plain.flatten <+: header ++ Io.received src m.trace := by
  refine ⟨plain, _, _, h.streaming.emitted.encodeAll, List.prefix_append _ _, ?_⟩
  by_cases hstate : c.state = .INIT
  . simp [(h.init hstate).2.1]
  . rw [h.flatten hstate]

inductive Sealing (E : Env κ) (eCtx : κ) (header : List Byte) (src dst : Side) (m : Machine κ)
    : Prop where
  | running (c : TcpShadowsocks κ) (plain : List (List Byte))
      (encrypting : Encrypting E eCtx header src dst m c plain)
  | ended (ended : Sealed E eCtx header src dst m)

theorem Carrying.flatten_takes (h : Carrying E eCtx header src dst m c plain)
    (htmpBuf : c.tmpBuf = []) (data : List Byte)
    : (plain ++ c.header ++ c.takes data).flatten
        = header ++ (Io.received src m.trace ++ data) := by
  rw [TcpShadowsocks.takes, if_pos htmpBuf]
  by_cases hstate : c.state = .INIT
  . obtain ⟨haddr, hplain, hreceived⟩ := h.init hstate
    simp [TcpShadowsocks.header, hstate, haddr, hplain, hreceived]
  . simp [TcpShadowsocks.header, hstate, h.flatten hstate]

theorem agree_piped {len n : Nat} (hpos : 0 < len) (hwbuf : (m.conn dst).wbuf = some (src, 0))
    (hwbufLen : (m.conn dst).wbufLen = len) (hrbufOff : (m.conn src).rbufOff = len)
    (hpipe : (m.conn dst).pipe = some src)
    (hc : len ≤ n ∧ c.tmpBuf = [] ∨ n < len ∧ c.state ≠ .INIT ∧ c.unsent.length = len - n)
    : (m.piped src dst n).Agree src dst c := by
  have hlen : ((m.advanced dst n).conn dst).wbufLen = len - n := by
    simp [advanced, TcpConn.advance, hwbufLen]
  unfold piped
  dsimp only
  rw [hlen]
  rcases hc with ⟨hle, htmpBuf⟩ | ⟨hlt, hstate, hunsent⟩
  . rw [if_neg (by omega)]
    apply Agree.idle <;> simp [released, htmpBuf, advanced, TcpConn.advance, hpipe]
  . rw [if_pos (by omega)]
    apply Agree.busy n
    case wbuf => simp [suspended, advanced, TcpConn.advance, hwbuf]
    case wbufLen =>
      simp [suspended, advanced, TcpConn.advance, hwbufLen, hunsent]
      omega
    case rbufOff => simpa [suspended, advanced, TcpConn.advance, hrbufOff] using hpos
    case re => simp [suspended]
    case tmpBuf =>
      intro hnil
      rw [hnil] at hunsent
      simp only [List.length_nil] at hunsent
      omega
    case state => exact hstate
    case pipe => simp [suspended, advanced, TcpConn.advance, hpipe]

end Machine

namespace TcpShadowsocks

variable {C : Crypto κ} {c c₁ : TcpShadowsocks κ} {data : List Byte} {sends : List (List Byte)}
  {ws : List (List WriteRes)}

theorem Fits.opened (h : c.Fits C data ws) (ho : c.Opened C sends c₁)
    : FitsChunk C c₁.eCtx data ((ws.drop sends.length).headD []) := by
  unfold Fits at h
  cases ho with
  | INIT state ct eCtx encrypt => simpa [state, encrypt] using h
  | HANDSHAKE state => simpa [state] using h
  | STREAM state => simpa [state] using h

theorem Written.agree {n : Nat} (hw : c.Written C data ws n sends c₁) (hfits : c.Fits C data ws)
    (htmpBuf : c.tmpBuf = []) (htmpBufOff : c.tmpBufOff = 0)
    (hlong : ∀ eCtx ct eCtx', C.encrypt eCtx data = some (ct, eCtx') → data.length ≤ ct.length)
    : data.length ≤ n ∧ c₁.tmpBuf = []
      ∨ n < data.length ∧ c₁.state ≠ .INIT ∧ c₁.unsent.length = data.length - n := by
  have hstate := hw.state_ne
  cases hw with
  | intro sends c₁ c₂ opened staged le eq =>
    have hfits := hfits.opened opened
    have hoff : c₁.tmpBufOff = c.tmpBufOff := by cases opened <;> rfl
    rw [htmpBufOff] at hoff
    cases staged with
    | left tmpBuf =>
      rw [opened.tmpBuf] at tmpBuf
      contradiction
    | fresh _ ct eCtx encrypt =>
      have hlong := hlong _ _ _ encrypt
      simp only [unsent, hoff, List.drop_zero] at le
      simp only [hoff, Int.natCast_zero, Int.sub_zero] at eq
      by_cases hn : n = ct.length
      . left
        refine ⟨by omega, ?_⟩
        simp [flushed, hoff, hn]
      . right
        have hlen : ct.length = data.length := by
          rcases hfits ct eCtx encrypt with h | h
          . exact h
          . omega
        refine ⟨by omega, hstate, ?_⟩
        have hne : ¬(n : Int) = ct.length - (0 : Nat) := by omega
        simp only [flushed, hoff, if_neg hne, unsent, List.length_drop]
        omega

theorem Written.left {n : Nat} (hw : c.Written C data ws n sends c₁) (htmpBuf : c.tmpBuf ≠ [])
    (hoff : c.tmpBufOff ≤ c.tmpBuf.length)
    : n ≤ c.unsent.length ∧ c₁.unsent.length = c.unsent.length - n
      ∧ (c₁.unsent = [] → c₁.tmpBuf = []) := by
  cases hw with
  | intro sends c₁ c₂ opened staged le eq =>
    cases staged with
    | fresh tmpBuf =>
      rw [opened.tmpBuf] at tmpBuf
      contradiction
    | left =>
      have hbuf := opened.tmpBuf
      have hoff' : c₁.tmpBufOff = c.tmpBufOff := by cases opened <;> rfl
      have hunsent : c₁.unsent = c.unsent := by rw [unsent, unsent, hbuf, hoff']
      rw [hunsent] at le
      refine ⟨le, ?_⟩
      simp only [unsent, List.length_drop] at le ⊢
      unfold flushed
      rw [hbuf, hoff']
      split
      . simp
        omega
      . next hne =>
        dsimp only
        refine ⟨by omega, ?_⟩
        intro hnil
        have hlen := congrArg List.length hnil
        simp only [List.length_drop, List.length_nil] at hlen
        omega

end TcpShadowsocks

section

variable {E : Env κ} {eCtx : κ} {header : List Byte} {src dst s : Side} {m : Machine κ}
  {c : TcpShadowsocks κ} {plain : List (List Byte)} {F : Fault → Machine κ → Prop}

theorem wp_connWrite_shadowsocks (hs : m.Usable s) (hc : (m.conn s).proto = .shadowsocks c)
    (buf : List Byte) (bufLen : Int) (Q : Int → Machine κ → Prop)
    : wp (connWrite E s buf bufLen) Q F m
        ↔ wp (tcpShadowsocksConnWrite E s buf bufLen) Q F (m.log (.write s bufLen)) := by
  simp [connWrite, hs, hc]

variable (header) in
theorem wp_connWrite_linked (h : m.Linked E eCtx src dst c plain) {buf : List Byte} {bufLen : Nat}
    (hflatten : (plain ++ c.header ++ c.takes (buf.take bufLen)).flatten
      = header ++ Io.received src m.trace)
    {Q : Int → Machine κ → Prop} (hclosed : ∀ m, m.Sealed E eCtx header src dst → Q ERR m)
    (hok : ∀ (n : Nat) sends c' inp,
      c.Written E.crypto (buf.take bufLen) m.inp.writes n sends c'
      → ∀ m', m' = (m.log (.write dst bufLen)).wrote dst c' sends inp
      → m'.Carrying E eCtx header src dst c' (plain ++ c.header ++ c.takes (buf.take bufLen))
      → Q n m')
    : wp (connWrite E dst buf bufLen) Q F m := by
  have hstream : Writer.Streaming E dst eCtx plain (m.log (.write dst bufLen)) c := by
    apply h.streaming.unwritten
    constructor
    case proto => exact h.streaming.proto
    all_goals simp [Io.dataOut]
  have hreceived : ∀ c' sends inp, Io.received src
      ((m.log (.write dst bufLen)).wrote dst c' sends inp).trace = Io.received src m.trace := by
    intro c' sends inp
    simp [Io.dataIn, Io.received_sends]
  have hbufLen : ∀ c' sends inp n,
      .write dst n ∈ ((m.log (.write dst bufLen)).wrote dst c' sends inp).trace → 0 ≤ n := by
    intro c' sends inp n hn
    simp only [Machine.trace_wrote, Machine.trace_log, List.mem_append, List.mem_singleton,
      Io.write.injEq, true_and, List.mem_map, reduceCtorEq, and_false, exists_false, or_false] at hn
    rcases hn with hn | hn
    . exact h.bufLen n hn
    . omega
  have hsrc := h.usable
  have hdst := h.streaming.usable
  rw [wp_connWrite_shadowsocks hdst h.streaming.proto]
  apply wp_tcpShadowsocksConnWrite hstream.alive hstream.usable hstream.proto (fun hneg => by omega)
  . exact .inl (Machine.remote_of_ne h.ne (by simpa using hsrc) hstream.usable)
  . rw [Int.toNat_natCast]
    constructor
    case failed =>
      intro sends c' inp err hfailed _
      obtain ⟨plain', ct, eCtx', hencode, haccepted, hplain⟩ :=
        hfailed.emitted hstream.emitted hstream.init
      apply hclosed
      apply Machine.sealed_closed (by simpa using hsrc) (by simpa using hdst)
      case hsent =>
        refine ⟨plain', ct, eCtx', hencode, ?_, ?_⟩
        . rw [Machine.trace_wrote, Io.accepted_append, Writer.accepted_sends]
          exact haccepted
        . rw [hreceived, ← hflatten]
          exact hplain.flatten
      case hbufLen => exact hbufLen c' sends inp
    case written =>
      intro n sends c' inp hw
      apply hok n sends c' inp hw _ rfl
      constructor
      case init => exact fun hinit => absurd hinit hw.state_ne
      case flatten =>
        intro _
        rw [hreceived, hflatten]
      case toLinked =>
        constructor
        case usable => simpa using hsrc
        case handsOn => simpa [Machine.wrote, Machine.setShadowsocks, h.ne] using h.handsOn
        case connected => simpa [Machine.wrote, Machine.setShadowsocks] using h.connected
        case streaming => exact hstream.written hw inp
        case bufLen => exact hbufLen c' sends inp

theorem tcpPipe_encrypting_write {m' : Machine κ} {data : List Byte}
    (h : m.Carrying E eCtx header src dst c plain) (tmpBuf : c.tmpBuf = [])
    (ho : Machine.Offered src dst m m' data) (hne : data ≠ [])
    (hfits : c.Fits E.crypto data m.inp.writes)
    (hlong : ∀ eCtx ct eCtx', E.crypto.encrypt eCtx data = some (ct, eCtx')
      → data.length ≤ ct.length)
    : wp (connWrite E dst (m'.pending dst) (m'.conn dst).wbufLen)
        (Machine.PipePost src dst data.length fun _ m => m.Sealing E eCtx header src dst) F m' := by
  have hpending := ho.pending
  obtain ⟨houtside, hwbuf, hwlen, hoff, -, -, hpipe, htrace, hwrites⟩ := ho
  have hlinked : m'.Linked E eCtx src dst c plain := by
    apply h.toLinked.outside houtside <;> simp [htrace, Io.dataOut]
  have htmpBufOff : c.tmpBufOff = 0 := by
    have := h.streaming.emitted.tmpBufOff
    simpa [tmpBuf] using this
  rw [hpending, hwlen]
  apply wp_connWrite_linked header hlinked
  . rw [List.take_length, h.flatten_takes tmpBuf, htrace]
    simp [Io.dataIn]
  . intro m₁ hsealed
    exact ⟨fun _ => .ended hsealed, fun hne => absurd rfl hne⟩
  . intro n sends c' inp hw m₁ hm₁ hcarry
    rw [List.take_length, hwrites] at hw
    refine ⟨fun heq => absurd heq (by rw [ERR]; omega), fun _ => ?_⟩
    refine ⟨hcarry.usable, hcarry.streaming.usable, ?_⟩
    refine .running c' _ ⟨hcarry.outside (.piped .refl n) ?_ ?_ ?_, ?_⟩
    . simp
    . simp
    . simp
    . apply Machine.agree_piped (List.length_pos_iff.mpr hne) _ _ _ _
        (hw.agree hfits tmpBuf htmpBufOff hlong)
      all_goals simp [hm₁, Machine.wrote, Machine.setShadowsocks, hwbuf, hwlen, hoff, hpipe]

theorem Machine.Carrying.sealed {m' : Machine κ} (h : m.Carrying E eCtx header src dst c plain)
    (ho : Machine.Outside src dst m m')
    (haccepted : Io.accepted dst m'.trace = Io.accepted dst m.trace)
    (hreceived : Io.received src m'.trace = Io.received src m.trace)
    (hbufLen : ∀ n, .write dst n ∈ m'.trace → .write dst n ∈ m.trace) (s : Side) (err : TcpError)
    : ((m'.withErr s err).closed s).Sealing E eCtx header src dst := by
  have h := h.outside ho haccepted hreceived hbufLen
  exact .ended (Machine.sealed_closed h.usable h.streaming.usable h.sent h.bufLen s err)

theorem tcpPipe_encrypting (h : m.Encrypting E eCtx header src dst c plain)
    (hre : (m.conn src).re = true)
    (hfits : c.Fits E.crypto (netTcpRead ((m.conn src).rbufLen - (m.conn src).rbufOff)
      (m.inp.reads.headD [])).data m.inp.writes)
    (hlong : ∀ eCtx data ct eCtx', E.crypto.encrypt eCtx data = some (ct, eCtx')
      → data.length ≤ ct.length)
    : wp (tcpPipe E src dst) (fun _ m => m.Sealing E eCtx header src dst) F m := by
  have hcarry := h.toCarrying
  cases h.agree with
  | busy _ _ _ _ re =>
    rw [re] at hre
    contradiction
  | idle wbuf wbufLen rbufOff tmpBuf pipe =>
    have hrefl : Machine.Outside src dst m m := .refl
    have houtside := hrefl.piping.received (m.conn src).rbufOff []
    apply wp_tcpPipe hcarry.streaming.alive hcarry.usable hcarry.streaming.usable hcarry.handsOn
    case hown => simp [wbuf]
    case hread =>
      intro _
      apply hcarry.sealed houtside <;>
        simp [Machine.received, Machine.piping, Io.dataIn, Io.dataOut]
    case hclosed =>
      intro _
      apply hcarry.sealed houtside <;>
        simp [Machine.received, Machine.piping, Io.dataIn, Io.dataOut]
    case hnothing =>
      intro _
      refine .running c plain ⟨hcarry.outside houtside.restarted ?_ ?_ ?_, ?_⟩
      . simp [Machine.restarted, Machine.received, Machine.piping, Io.dataOut]
      . simp [Machine.restarted, Machine.received, Machine.piping, Io.dataIn]
      . simp [Machine.restarted, Machine.received, Machine.piping]
      . apply Machine.Agree.idle <;>
          simp [Machine.restarted, Machine.received, Machine.piping, wbuf, wbufLen, rbufOff,
            tmpBuf]
    case hwrite =>
      intro data hne _ heq
      rw [heq] at hfits
      rw [rbufOff]
      exact tcpPipe_encrypting_write hcarry tmpBuf (Machine.offered_filled wbuf rbufOff data) hne
        hfits fun eCtx => hlong eCtx data

theorem tcpPipeWrite_encrypting_write (h : m.Carrying E eCtx header src dst c plain) {off : Nat}
    (wbuf : (m.conn dst).wbuf = some (src, off)) (wbufLen : (m.conn dst).wbufLen = c.unsent.length)
    (rbufOff : 0 < (m.conn src).rbufOff) (re : (m.conn src).re = false) (state : c.state ≠ .INIT)
    (pipe : (m.conn dst).pipe = some src) (hne : c.unsent ≠ [])
    : wp (connWrite E dst (m.pending dst) (m.conn dst).wbufLen)
        (fun nwrite m => (nwrite = ERR → m.Sealing E eCtx header src dst)
          ∧ (nwrite ≠ ERR → m.Usable dst
            ∧ (m.pipeWritten dst nwrite).Sealing E eCtx header src dst)) F m := by
  have htmpBuf : c.tmpBuf ≠ [] := by
    intro hnil
    simp [TcpShadowsocks.unsent, hnil] at hne
  have htakes : ∀ buf, plain ++ c.header ++ c.takes buf = plain := by
    intro buf
    simp [TcpShadowsocks.header, TcpShadowsocks.takes, state, htmpBuf]
  rw [wbufLen]
  apply wp_connWrite_linked header h.toLinked
  . rw [htakes]
    exact h.flatten state
  . intro m₁ hsealed
    exact ⟨fun _ => .ended hsealed, fun hne => absurd rfl hne⟩
  . intro n sends c' inp hw m₁ hm₁ hcarry
    rw [htakes] at hcarry
    refine ⟨fun heq => absurd heq (by rw [ERR]; omega), fun _ => ⟨hcarry.streaming.usable, ?_⟩⟩
    refine .running c' _ ⟨hcarry.outside (.pipeWritten .refl n) ?_ ?_ ?_, ?_⟩
    . simp [Machine.pipeWritten]
    . simp [Machine.pipeWritten]
    . simp [Machine.pipeWritten]
    . obtain ⟨hn, hunsent, htmpBuf⟩ := hw.left htmpBuf h.streaming.emitted.tmpBufOff
      rw [Machine.pipeWritten_eq]
      apply Machine.Agree.busy (off + n)
      case wbuf =>
        simp [hm₁, Machine.advanced, Machine.wrote, Machine.setShadowsocks, TcpConn.advance, wbuf]
      case wbufLen =>
        simp [hm₁, Machine.advanced, Machine.wrote, Machine.setShadowsocks, TcpConn.advance,
          wbufLen, hunsent]
        omega
      case tmpBuf => exact htmpBuf
      case state => exact hw.state_ne
      all_goals
        simp [hm₁, Machine.advanced, Machine.wrote, Machine.setShadowsocks, TcpConn.advance, rbufOff,
          re, pipe]

theorem tcpConnWriteHandler_encrypting (h : m.Encrypting E eCtx header src dst c plain)
    : wp (tcpConnWriteHandler E dst) (fun _ m => m.Sealing E eCtx header src dst) F m := by
  have hcarry := h.toCarrying
  have hdst := hcarry.streaming.usable
  simp only [tcpConnWriteHandler, handleTcpConnection, wp_bind, wp_deref hdst, hcarry.connected,
    ↓reduceIte, wp_pure, ne_eq, not_true_eq_false]
  split
  . next hpiped =>
    have hpipe : (m.conn dst).pipe = some src := by
      cases h.agree with
      | idle _ _ _ _ pipe => exact pipe hpiped
      | busy _ _ _ _ _ _ _ pipe => exact pipe
    rw [wp_bind]
    apply wp_tcpPipeWrite hdst hpipe hcarry.usable
    case hwbuf =>
      intro hne
      cases h.agree with
      | idle _ wbufLen => contradiction
      | busy off wbuf => exact ⟨(src, off), wbuf, hcarry.usable⟩
    case hdone =>
      intro hlen
      refine .running c plain ⟨hcarry.outside (.resumed .refl) ?_ ?_ ?_, ?_⟩
      . simp [Machine.resumed]
      . simp [Machine.resumed]
      . simp [Machine.resumed]
      . have htmpBuf : c.tmpBuf = [] := by
          cases h.agree with
          | idle _ _ _ tmpBuf => exact tmpBuf
          | busy _ _ wbufLen _ _ tmpBuf =>
            apply tmpBuf
            rw [hlen] at wbufLen
            rw [← List.length_eq_zero_iff]
            omega
        apply Machine.Agree.idle <;> simp [Machine.resumed, htmpBuf, hpipe]
    case hwrite =>
      intro hne
      cases h.agree with
      | idle _ wbufLen => contradiction
      | busy off wbuf wbufLen rbufOff re tmpBuf state pipe =>
        apply tcpPipeWrite_encrypting_write hcarry wbuf wbufLen rbufOff re state pipe
        intro hnil
        rw [hnil] at wbufLen
        contradiction
  . next hpiped =>
    simp only [fireWrite, wp_bind, wp_deref hdst, wp_pure]
    exact .running c plain h

end

structure EncryptedStart (m : Machine κ) (src : Side) (c : TcpShadowsocks κ) : Prop where
  alive : m.Alive
  trace : m.trace = []
  usable_src : m.Usable src
  usable_dst : m.Usable src.other
  handsOn : (m.conn src).proto.Plain
  proto : (m.conn src.other).proto = .shadowsocks c
  tmpBuf : c.tmpBuf = []
  tmpBufOff : c.tmpBufOff = 0
  connected : (m.conn src.other).connected = true
  rbufOff : (m.conn src).rbufOff = 0
  wbuf : (m.conn src.other).wbuf = none
  wbufLen : (m.conn src.other).wbufLen = 0
  piped : (m.conn src.other).piped = false

structure Recovered (recover : List Byte → List Byte) (header : List Byte) (m : Machine κ)
    (src : Side) : Prop where
  relayed : recover (Io.accepted src.other m.trace) <+: header ++ Io.received src m.trace
  bufLen : ∀ n, .write src.other n ∈ m.trace → 0 ≤ n
  released : (m.conn src).live = true → (m.conn src).rbufOff = 0
    → ∀ c, (m.conn src.other).proto = .shadowsocks c → c.unsent = []

section

variable {E : Env κ} {eCtx : κ} {header : List Byte} {src : Side} {m : Machine κ}
  {c : TcpShadowsocks κ}

theorem EncryptedStart.sealing (h : EncryptedStart m src c)
    : m.Sealing E c.eCtx c.header.flatten src src.other := by
  refine .running c [] ⟨⟨⟨h.usable_src, h.handsOn, h.connected, ?_, ?_⟩, ?_, ?_⟩, ?_⟩
  . refine ⟨h.alive, h.usable_dst, h.proto, fun _ => h.tmpBuf, ?_, ?_⟩
    . simp [encodeAll, h.trace, TcpShadowsocks.unsent, h.tmpBuf]
    . simp [h.tmpBufOff]
  . simp [h.trace]
  . intro hstate
    simp [TcpShadowsocks.header, hstate, h.trace]
  . intro hstate
    simp [TcpShadowsocks.header, hstate, h.trace]
  . apply Machine.Agree.idle h.wbuf h.wbufLen h.rbufOff h.tmpBuf
    simp [h.piped]

theorem Machine.Sealing.recovered (h : m.Sealing E eCtx header src src.other)
    {recover : List Byte → List Byte} (hrecover : Recovers E.crypto.encrypt eCtx recover)
    : Recovered recover header m src := by
  have hsent : ∀ {plain : List (List Byte)} {ct eCtx'},
      encodeAll E.crypto.encrypt eCtx plain = some (ct, eCtx')
        → Io.accepted src.other m.trace <+: ct → plain.flatten <+: header ++ Io.received src m.trace
        → recover (Io.accepted src.other m.trace) <+: header ++ Io.received src m.trace := by
    intro plain ct eCtx' hencode haccepted hplain
    exact (hrecover.prefix_flatten hencode haccepted).trans hplain
  cases h with
  | running c plain h =>
    obtain ⟨plain, ct, eCtx', hencode, haccepted, hplain⟩ := h.sent
    refine ⟨hsent hencode haccepted hplain, h.bufLen, ?_⟩
    intro _ hoff c' hc'
    rw [h.streaming.proto] at hc'
    simp only [Proto.shadowsocks.injEq] at hc'
    cases h.agree with
    | idle _ _ _ tmpBuf => simp [← hc', TcpShadowsocks.unsent, tmpBuf]
    | busy _ _ _ rbufOff => omega
  | ended h =>
    obtain ⟨plain, ct, eCtx', hencode, haccepted, hplain⟩ := h.sent
    refine ⟨hsent hencode haccepted hplain, h.bufLen, ?_⟩
    simp [h.live]

theorem pipeStep_sealing
    (hlong : ∀ eCtx data ct eCtx', E.crypto.encrypt eCtx data = some (ct, eCtx')
      → data.length ≤ ct.length)
    (h : m.Sealing E eCtx header src src.other) {a : PipeEvent × Inputs κ}
    (ha : FitsEvent E src m a)
    : ∃ m', pipeStep E (.one src) m a = .ok m' ∧ m'.Sealing E eCtx header src src.other := by
  rcases a with ⟨ev, inp⟩
  cases h with
  | ended h =>
    refine ⟨m, ?_, .ended h⟩
    cases ev with
    | readable s =>
      simp only [pipeStep, Pipes.one, decide_eq_true_eq, ite_eq_right_iff]
      rintro ⟨rfl, hre⟩
      simp [h.re] at hre
    | writable s =>
      simp only [pipeStep, Pipes.one, decide_eq_true_eq, ite_eq_right_iff]
      rintro ⟨rfl, hwe⟩
      simp [h.we] at hwe
  | running c plain h =>
    have hinp : (m.withInp inp).Encrypting E eCtx header src src.other c plain := by
      refine ⟨h.toCarrying.outside .withInp rfl rfl (fun _ => id), ?_⟩
      cases h.agree with
      | idle wbuf wbufLen rbufOff tmpBuf pipe => exact .idle wbuf wbufLen rbufOff tmpBuf pipe
      | busy off wbuf wbufLen rbufOff re tmpBuf state pipe =>
        exact .busy off wbuf wbufLen rbufOff re tmpBuf state pipe
    cases ev with
    | readable s =>
      simp only [pipeStep, Pipes.one, decide_eq_true_eq]
      split
      . next hs =>
        obtain ⟨rfl, hre⟩ := hs
        obtain ⟨_, m', heq, hstep⟩ := exists_ok_of_wp
          (tcpPipe_encrypting hinp hre (ha rfl hre c h.streaming.proto) hlong)
        exact ⟨m', by rw [exec, heq], hstep⟩
      . exact ⟨m, rfl, .running c plain h⟩
    | writable s =>
      simp only [pipeStep, Pipes.one, decide_eq_true_eq]
      split
      . next hs =>
        obtain ⟨rfl, hwe⟩ := hs
        obtain ⟨_, m', heq, hstep⟩ := exists_ok_of_wp (tcpConnWriteHandler_encrypting hinp)
        exact ⟨m', by rw [exec, heq], hstep⟩
      . exact ⟨m, rfl, .running c plain h⟩

end

/--
As long as no chunk is lengthened by its encryption and accepted in parts, the relay to a shadowsocks
connection is free of faults and its peer gets the header and then what was read from the source.
-/
theorem encrypted_relay_recovered (E : Env κ) (src : Side) (m : Machine κ) (c : TcpShadowsocks κ)
    (hm : EncryptedStart m src c)
    (hlong : ∀ eCtx data ct eCtx', E.crypto.encrypt eCtx data = some (ct, eCtx')
      → data.length ≤ ct.length)
    (recover : List Byte → List Byte) (hrecover : Recovers E.crypto.encrypt c.eCtx recover)
    (as : List (PipeEvent × Inputs κ))
    (has : Along (pipeStep E (.one src)) (FitsEvent E src) m as)
    : ∃ m', run (pipeStep E (.one src)) m as = .ok m'
        ∧ Recovered recover c.header.flatten m' src := by
  obtain ⟨m', hrun, h⟩ := exists_run (fun _ _ h ha => pipeStep_sealing hlong h ha) hm.sealing has
  exact ⟨m', hrun, h.recovered hrecover⟩

theorem fitsEvent_of_length {E : Env κ}
    (h : ∀ eCtx data ct eCtx', E.crypto.encrypt eCtx data = some (ct, eCtx')
      → ct.length = data.length)
    (src : Side) (m : Machine κ) (a : PipeEvent × Inputs κ)
    : FitsEvent E src m a := by
  have hchunk : ∀ eCtx data ws, TcpShadowsocks.FitsChunk E.crypto eCtx data ws :=
    fun eCtx data ws ct eCtx' heq => .inl (h eCtx data ct eCtx' heq)
  rcases a with ⟨_ | _, inp⟩
  . intro _ _ c _
    unfold TcpShadowsocks.Fits
    split
    . split
      . trivial
      . exact hchunk _ _ _
    . exact hchunk _ _ _
  . trivial

theorem length_copy (eCtx : Unit) (data ct : List Byte) (eCtx' : Unit)
    (h : Crypto.copy.encrypt eCtx data = some (ct, eCtx'))
    : ct.length = data.length := by
  simp only [Crypto.copy, Option.some.injEq, Prod.mk.injEq] at h
  rw [h.1]

theorem encrypted_relay_recovered_short_write
    : let E := Env.default .xsRedir .copy .text
      let m := Machine.pair { TcpConn.new .raw true 60 with re := true }
        (.new (.shadowsocks (.client [1, 127, 0, 0, 1, 0, 80] ())) true 60) ()
      ∃ m', run (pipeStep E (.one .client)) m [
          (.readable .client, { Inputs.idle () with
            reads := [[.data [1, 2, 3]]], writes := [[.count 7], [.count 1]] }),
          (.writable .client, { Inputs.idle () with writes := [[.error .EAGAIN]] }),
          (.writable .client, { Inputs.idle () with writes := [[.count 1]] }),
          (.writable .client, { Inputs.idle () with writes := [[.count 1]] })
        ] = .ok m' ∧ Recovered id [1, 127, 0, 0, 1, 0, 80] m' .client := by
  intro E m
  have hstart : EncryptedStart m .client (.client [1, 127, 0, 0, 1, 0, 80] ()) := by
    refine ⟨Machine.alive_pair rfl rfl, rfl, Machine.usable_pair rfl rfl _,
      Machine.usable_pair rfl rfl _, .raw, rfl, rfl, rfl, rfl, rfl, rfl, rfl, rfl⟩
  exact encrypted_relay_recovered E .client m (.client [1, 127, 0, 0, 1, 0, 80] ()) hstart
    (fun eCtx data ct eCtx' h => (length_copy eCtx data ct eCtx' h).ge) id Crypto.recovers_copy _
    (along_of_forall (fitsEvent_of_length length_copy .client) _ _)

/--
xs-server with an initialisation vector of one byte. Three of the first four bytes are accepted, which
`tcpPipe` takes to be the three bytes it has read, so the next byte it reads is dropped.
-/
theorem encrypted_relay_lossy
    : let E := Env.default .xsServer .stream .text
      let c : TcpShadowsocks Bool := { TcpShadowsocks.client [] false with state := .HANDSHAKE }
      let m := Machine.pair (.new (.shadowsocks c) true 60)
        { TcpConn.new .raw true 60 with re := true } false
      EncryptedStart m .remote c
        ∧ (∀ eCtx data ct eCtx', E.crypto.encrypt eCtx data = some (ct, eCtx')
            → data.length ≤ ct.length)
        ∧ Recovers E.crypto.encrypt c.eCtx (·.drop 1)
        ∧ ∃ m', run (pipeStep E (.one .remote)) m [
            (.readable .remote, { Inputs.idle false with
              reads := [[.data [1, 2, 3]]], writes := [[.count 3]] }),
            (.readable .remote, { Inputs.idle false with
              reads := [[.data [4]]], writes := [[.count 1]] }),
            (.readable .remote, { Inputs.idle false with
              reads := [[.data [5]]], writes := [[.count 1]] })
          ] = .ok m'
          ∧ ¬(Io.accepted .client m'.trace).drop 1 <+: Io.received .remote m'.trace := by
  intro E c m
  refine ⟨?_, ?_, Crypto.recovers_stream, exists_ok_of_eval _ (by decide +kernel)⟩
  . refine ⟨Machine.alive_pair rfl rfl, rfl, Machine.usable_pair rfl rfl _,
      Machine.usable_pair rfl rfl _, .raw, rfl, rfl, rfl, rfl, rfl, rfl, rfl, rfl⟩
  . intro eCtx data ct eCtx' h
    simp only [E, Env.default, Crypto.stream, Option.some.injEq, Prod.mk.injEq] at h
    rw [← h.1]
    split <;> simp

end Xsocks
