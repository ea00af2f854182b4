import Xsocks.Protocol.Lemmas.Cipher
import Xsocks.Tcp.Lemmas.EncryptedRelay

/-!
This module contains the lengths of the plaintexts that the relay to a shadowsocks connection encrypts.
An AEAD cipher takes at most `CHUNK_SIZE_MASK` bytes at once, one byte less than the relay's buffer holds.
-/

namespace Xsocks

open Wp Run

variable {κ : Type}

def WithinLimit (n : Nat) : Prop :=
  1 ≤ n ∧ n ≤ CHUNK_SIZE_MASK ∧ chunkMlen (chunkLenBuf n) = n

instance (n : Nat) : Decidable (WithinLimit n) :=
  inferInstanceAs (Decidable (_ ∧ _))

theorem withinLimit_iff {n : Nat} : WithinLimit n ↔ 1 ≤ n ∧ n ≤ CHUNK_SIZE_MASK := by
  unfold WithinLimit
  constructor
  . intro ⟨hpos, hle, _⟩
    exact ⟨hpos, hle⟩
  . intro ⟨hpos, hle⟩
    exact ⟨hpos, hle, chunkMlen_chunkLenBuf hle⟩

/--
`C` with a record of the lengths that `encrypt` was called with. A failure leaves no record, unless
the length was out of the limit.
-/
def Crypto.recording (C : Crypto κ) : Crypto (κ × List Nat) where
  encrypt eCtx plaintext :=
    match C.encrypt eCtx.1 plaintext with
    | some (ct, ctx) => some (ct, (ctx, eCtx.2 ++ [plaintext.length]))
    | none =>
      if WithinLimit plaintext.length then none
      else some ([], (eCtx.1, eCtx.2 ++ [plaintext.length]))
  decrypt dCtx ciphertext :=
    let d := C.decrypt dCtx.1 ciphertext
    ⟨d.res, (d.dCtx, dCtx.2), d.demand⟩
  encryptAll := C.encryptAll
  decryptAll := C.decryptAll

def Env.recording (E : Env κ) : Env (κ × List Nat) :=
  { E with crypto := E.crypto.recording }

theorem Crypto.record_encrypt {C : Crypto κ} {eCtx eCtx' : κ × List Nat} {plaintext ct : List Byte}
    (h : C.recording.encrypt eCtx plaintext = some (ct, eCtx'))
    : eCtx'.2 = eCtx.2 ++ [plaintext.length] := by
  simp only [recording] at h
  split at h
  . simp only [Option.some.injEq, Prod.mk.injEq] at h
    rw [← h.2]
  . split at h
    . contradiction
    . simp only [Option.some.injEq, Prod.mk.injEq] at h
      rw [← h.2]

/-- All plaintexts that the write handler of `dst` has passed to `encrypt` are within the limit. -/
def Machine.InLimit (dst : Side) (m : Machine (κ × List Nat)) : Prop :=
  ∀ c, (m.conn dst).proto = .shadowsocks c → ∀ n ∈ c.eCtx.2, WithinLimit n

/-- No read fills the buffer while there is nothing left of an earlier chunk. -/
def NotFull (src : Side) (m : Machine κ) : PipeEvent × Inputs κ → Prop
  | (.readable s, inp) =>
    s = src → (m.conn src).re = true
      → ∀ c, (m.conn src.other).proto = .shadowsocks c → c.tmpBuf = []
      → (m.conn src).rbufOff + (netTcpRead ((m.conn src).rbufLen - (m.conn src).rbufOff)
          (inp.reads.headD [])).data.length < NET_IOBUF_LEN
  | (.writable _, _) => True

namespace TcpShadowsocks

structure Recorded (c : TcpShadowsocks (κ × List Nat)) : Prop where
  tmpBufOff : c.tmpBuf = [] ∧ c.tmpBufOff = 0 ∨ c.tmpBufOff < c.tmpBuf.length
  header : c.state = .INIT → WithinLimit c.addrbufDest.length
  inLimit : ∀ n ∈ c.eCtx.2, WithinLimit n

variable {C : Crypto κ} {c c₁ : TcpShadowsocks (κ × List Nat)} {buf : List Byte}
  {sends : List (List Byte)}

theorem inLimit_encrypt {eCtx eCtx' : κ × List Nat} {ct : List Byte}
    (h : C.recording.encrypt eCtx buf = some (ct, eCtx')) (he : ∀ n ∈ eCtx.2, WithinLimit n)
    (hbuf : WithinLimit buf.length)
    : ∀ n ∈ eCtx'.2, WithinLimit n := by
  rw [Crypto.record_encrypt h]
  intro n hn
  rcases List.mem_append.mp hn with hn | hn
  . exact he n hn
  . rw [List.mem_singleton.mp hn]
    exact hbuf

theorem Opened.recorded (h : c.Opened C.recording sends c₁) (hc : c.Recorded) : c₁.Recorded := by
  cases h with
  | INIT state ct eCtx encrypt =>
    refine ⟨hc.tmpBufOff, by simp, ?_⟩
    exact inLimit_encrypt encrypt hc.inLimit (hc.header state)
  | HANDSHAKE state => exact ⟨hc.tmpBufOff, by simp, hc.inLimit⟩
  | STREAM state => exact hc

theorem Staged.inLimit (h : c.Staged C.recording buf c₁) (hc : c.Recorded)
    (hbuf : c.tmpBuf = [] → WithinLimit buf.length)
    : ∀ n ∈ c₁.eCtx.2, WithinLimit n := by
  cases h with
  | fresh tmpBuf ct eCtx encrypt => exact inLimit_encrypt encrypt hc.inLimit (hbuf tmpBuf)
  | left => exact hc.inLimit

theorem Written.recorded {ws : List (List WriteRes)} {n : Nat}
    (h : c.Written C.recording buf ws n sends c₁) (hc : c.Recorded)
    (hbuf : c.tmpBuf = [] → WithinLimit buf.length)
    : c₁.Recorded ∧ (c.tmpBuf = [] ∨ c₁.unsent.length + n = c.unsent.length) := by
  cases h with
  | intro sends c₁ c₂ opened staged le eq =>
    have hstate := opened.state_ne
    have hc₁ := opened.recorded hc
    have htmpBuf := opened.tmpBuf
    have htmpBufOff : c₁.tmpBufOff = c.tmpBufOff := by cases opened <;> rfl
    rw [← htmpBuf] at hbuf
    have hlimit := staged.inLimit hc₁ hbuf
    rw [← staged.state] at hstate
    simp only [unsent, List.length_drop] at le ⊢
    constructor
    . unfold flushed
      split
      . exact ⟨.inl ⟨rfl, rfl⟩, fun h => absurd h hstate, hlimit⟩
      . next hne =>
        refine ⟨.inr ?_, fun h => absurd h hstate, hlimit⟩
        dsimp only
        have hlt : c₂.tmpBufOff ≤ c₂.tmpBuf.length := by
          have := hc₁.tmpBufOff
          cases staged with
          | fresh tmpBuf =>
            simp only [tmpBuf, List.length_nil] at this ⊢
            omega
          | left => omega
        omega
    . cases staged with
      | fresh tmpBuf =>
        left
        rw [← htmpBuf]
        exact tmpBuf
      | left tmpBuf =>
        right
        have hoff := hc₁.tmpBufOff
        simp only [tmpBuf, false_and, false_or] at hoff
        unfold flushed
        split
        . next heq =>
          rw [← htmpBuf, ← htmpBufOff]
          simp
          omega
        . rw [← htmpBuf, ← htmpBufOff]
          dsimp only
          omega

theorem WriteFailed.inLimit (h : c.WriteFailed C.recording buf sends c₁) (hc : c.Recorded)
    (hbuf : c.tmpBuf = [] → WithinLimit buf.length)
    : ∀ n ∈ c₁.eCtx.2, WithinLimit n := by
  cases h with
  | encryptHeader => exact hc.inLimit
  | writeHeader state ct eCtx encrypt n lt =>
    exact inLimit_encrypt encrypt hc.inLimit (hc.header state)
  | encrypt sends c₁ opened => exact (opened.recorded hc).inLimit
  | write sends c₁ c₂ opened staged =>
    rw [← opened.tmpBuf] at hbuf
    exact staged.inLimit (opened.recorded hc) hbuf

theorem Staged.exceeded (h : c.Staged C.recording buf c₁) (htmpBuf : c.tmpBuf = [])
    (hbuf : buf.length = NET_IOBUF_LEN)
    : NET_IOBUF_LEN ∈ c₁.eCtx.2 := by
  cases h with
  | fresh _ ct eCtx encrypt => simp [Crypto.record_encrypt encrypt, hbuf]
  | left tmpBuf => contradiction

theorem Written.exceeded {ws : List (List WriteRes)} {n : Nat}
    (h : c.Written C.recording buf ws n sends c₁) (htmpBuf : c.tmpBuf = [])
    (hbuf : buf.length = NET_IOBUF_LEN)
    : NET_IOBUF_LEN ∈ c₁.eCtx.2 := by
  cases h with
  | intro sends c₁ c₂ opened staged le eq =>
    have := staged.exceeded (by rw [opened.tmpBuf, htmpBuf]) hbuf
    unfold flushed
    split <;> exact this

theorem WriteFailed.exceeded (h : c.WriteFailed C.recording buf sends c₁) (htmpBuf : c.tmpBuf = [])
    (hstate : c.state ≠ .INIT) (hbuf : buf.length = NET_IOBUF_LEN)
    : NET_IOBUF_LEN ∈ c₁.eCtx.2 := by
  cases h with
  | encryptHeader state => contradiction
  | writeHeader state => contradiction
  | encrypt sends c₁ opened tmpBuf encrypt =>
    -- a length out of the limit is recorded instead
    have hnot : ¬WithinLimit buf.length := by
      rw [hbuf]
      decide
    simp only [Crypto.recording] at encrypt
    split at encrypt
    . contradiction
    . rw [if_neg hnot] at encrypt
      contradiction
  | write sends c₁ c₂ opened staged => exact staged.exceeded (by rw [opened.tmpBuf, htmpBuf]) hbuf

end TcpShadowsocks

namespace Machine

theorem not_inLimit_of_proto {dst : Side} {m : Machine (κ × List Nat)}
    {c : TcpShadowsocks (κ × List Nat)} (hc : (m.conn dst).proto = .shadowsocks c)
    (h : NET_IOBUF_LEN ∈ c.eCtx.2)
    : ¬m.InLimit dst := by
  intro hm
  have hnot : ¬WithinLimit NET_IOBUF_LEN := by decide
  exact hnot (hm c hc _ h)

structure Feeding (src dst : Side) (m : Machine (κ × List Nat)) (c : TcpShadowsocks (κ × List Nat))
    : Prop where
  alive : m.Alive
  usable_src : m.Usable src
  usable_dst : m.Usable dst
  handsOn : (m.conn src).proto.Plain
  rbufLen : (m.conn src).rbufLen = NET_IOBUF_LEN
  connected : (m.conn dst).connected = true
  proto : (m.conn dst).proto = .shadowsocks c
  recorded : c.Recorded

/--
The pipe offers at most a chunk, beyond what the write handler takes off the count for bytes that it
has encrypted before.
-/
structure Bounded (src dst : Side) (m : Machine κ) (c : TcpShadowsocks κ) : Prop where
  owned : m.Owned src dst
  rbufOff : (m.conn src).rbufOff ≤ NET_IOBUF_LEN
  wbufLen : (m.conn dst).wbufLen ≤ CHUNK_SIZE_MASK + c.unsent.length
  init : c.state = .INIT → (m.conn dst).wbufLen = 0

inductive Limited (src dst : Side) (m : Machine (κ × List Nat)) : Prop where
  | running (c : TcpShadowsocks (κ × List Nat)) (feeding : Feeding src dst m c)
      (bounded : Bounded src dst m c)
  | ended (re : (m.conn src).re = false) (we : (m.conn dst).we = false) (inLimit : m.InLimit dst)

variable {src dst : Side} {m m' : Machine (κ × List Nat)} {c : TcpShadowsocks (κ × List Nat)}

theorem Limited.inLimit (h : m.Limited src dst) : m.InLimit dst := by
  cases h with
  | running c feeding bounded =>
    intro c' hc'
    rw [feeding.proto] at hc'
    simp only [Proto.shadowsocks.injEq] at hc'
    rw [← hc']
    exact feeding.recorded.inLimit
  | ended re we inLimit => exact inLimit

theorem Feeding.outside (h : Feeding src dst m c) (ho : Outside src dst m m')
    : Feeding src dst m' c := by
  obtain ⟨hproto, -, -, hrbufLen⟩ := ho.conn src
  obtain ⟨hproto', hconnected, -, -⟩ := ho.conn dst
  constructor
  case alive => exact ho.alive.mpr h.alive
  case usable_src => exact (ho.usable src).mpr h.usable_src
  case usable_dst => exact (ho.usable dst).mpr h.usable_dst
  case handsOn =>
    rw [hproto]
    exact h.handsOn
  case rbufLen => rw [hrbufLen, h.rbufLen]
  case connected => rw [hconnected, h.connected]
  case proto => rw [hproto', h.proto]
  case recorded => exact h.recorded

theorem Feeding.ne (h : Feeding src dst m c) : src ≠ dst := by
  intro heq
  have hplain := h.handsOn
  rw [heq, h.proto] at hplain
  cases hplain

theorem limited_closed (hsrc : m.Usable src) (hdst : m.Usable dst) (hm : m.InLimit dst) (s : Side)
    (err : TcpError)
    : ((m.withErr s err).closed s).Limited src dst := by
  have hsrc' : (m.withErr s err).Usable src := by simpa using hsrc
  have hdst' : (m.withErr s err).Usable dst := by simpa using hdst
  apply Limited.ended
  . rw [conn_closed hsrc', TcpConn.close]
  . rw [conn_closed hdst', TcpConn.close]
  . intro c hc
    rw [conn_closed hdst', TcpConn.close] at hc
    exact hm c (by simpa [withErr] using hc)

theorem Feeding.closed (h : Feeding src dst m c) (ho : Outside src dst m m') (s : Side) (err : TcpError)
    : ((m'.withErr s err).closed s).Limited src dst := by
  have h := h.outside ho
  apply limited_closed h.usable_src h.usable_dst
  intro c' hc'
  rw [h.proto] at hc'
  simp only [Proto.shadowsocks.injEq] at hc'
  rw [← hc']
  exact h.recorded.inLimit

end Machine

section

variable {E : Env κ} {src dst : Side} {m : Machine (κ × List Nat)} {c : TcpShadowsocks (κ × List Nat)}

theorem wp_tcpShadowsocksConnWrite_negative {s : Side} {buf : List Byte} {bufLen : Int}
    {Q : Int → Machine κ → Prop} {F : Fault → Machine κ → Prop} {m : Machine κ} {c : TcpShadowsocks κ}
    (hs : m.Usable s) (hc : (m.conn s).proto = .shadowsocks c) (hstate : c.state ≠ .INIT)
    (htmpBuf : c.tmpBuf = []) (hlen : bufLen < 0)
    (hF : F .memcpyLength (m.setShadowsocks s { c with state := .STREAM }))
    : wp (tcpShadowsocksConnWrite E s buf bufLen) Q F m := by
  rw [tcpShadowsocksConnWrite, wp_bind, wp_derefShadowsocks hs hc]
  cases hst : c.state with
  | INIT => contradiction
  | HANDSHAKE =>
    dsimp only
    rw [wp_bind, wp_assignShadowsocks hs hc, tcpShadowsocksConnWrite.stream, wp_bind,
      wp_derefShadowsocks (by simpa using hs) (Machine.proto_setShadowsocks _)]
    simpa [htmpBuf, hlen] using hF
  | STREAM =>
    dsimp only
    rw [tcpShadowsocksConnWrite.stream, wp_bind, wp_derefShadowsocks hs hc]
    have hself : { c with state := .STREAM } = c := by rw [← hst]
    rw [hself, Machine.setShadowsocks_self hc] at hF
    simpa [htmpBuf, hlen] using hF

theorem wp_connWrite_feeding (h : m.Feeding src dst c) {buf : List Byte} {bufLen : Int}
    (hbuf : c.tmpBuf = [] → 0 ≤ bufLen → WithinLimit (buf.take bufLen.toNat).length)
    (hstate : bufLen < 0 → c.state ≠ .INIT)
    {Q : Int → Machine (κ × List Nat) → Prop} (hclosed : ∀ m, m.Limited src dst → Q ERR m)
    (hok : ∀ (n : Nat) c' sends inp,
      c.tmpBuf = [] ∨ c'.unsent.length + n = c.unsent.length
      → c'.state ≠ .INIT
      → ∀ m', m' = (m.log (.write dst bufLen)).wrote dst c' sends inp → m'.Feeding src dst c'
      → Q n m')
    : wp (connWrite E.recording dst buf bufLen) Q (fun _ m => m.InLimit dst) m := by
  have hlog : (m.log (.write dst bufLen)).Feeding src dst c :=
    h.outside (.log .refl (by simp [Io.dataIn]) (by simp [Io.dataOut]))
  have hne := h.ne
  rw [wp_connWrite_shadowsocks h.usable_dst h.proto]
  clear h
  generalize m.log (.write dst bufLen) = m₁ at *
  have hwrote : ∀ c' sends inp, (∀ n ∈ c'.eCtx.2, WithinLimit n)
      → (m₁.wrote dst c' sends inp).InLimit dst := by
    intro c' sends inp hlimit c'' hc''
    rw [Machine.proto_wrote] at hc''
    simp only [Proto.shadowsocks.injEq] at hc''
    rw [← hc'']
    exact hlimit
  by_cases hneg : c.tmpBuf = [] ∧ bufLen < 0
  . apply wp_tcpShadowsocksConnWrite_negative hlog.usable_dst hlog.proto (hstate hneg.2) hneg.1 hneg.2
    rw [Machine.setShadowsocks_eq_wrote]
    exact hwrote _ _ _ hlog.recorded.inLimit
  . have hbuf : c.tmpBuf = [] → WithinLimit (buf.take bufLen.toNat).length := by
      intro htmpBuf
      apply hbuf htmpBuf
      apply Int.not_lt.mp
      exact fun hlt => hneg ⟨htmpBuf, hlt⟩
    apply wp_tcpShadowsocksConnWrite hlog.alive hlog.usable_dst hlog.proto
    . intro hlt sends c' inp hopened htmpBuf
      rw [hopened.tmpBuf] at htmpBuf
      exact absurd ⟨htmpBuf, hlt⟩ hneg
    . exact .inl (Machine.remote_of_ne hne hlog.usable_src hlog.usable_dst)
    . constructor
      case failed =>
        intro sends c' inp err hfailed _
        apply hclosed
        apply Machine.limited_closed (by simpa using hlog.usable_src) (by simpa using hlog.usable_dst)
        exact hwrote _ _ _ (hfailed.inLimit hlog.recorded hbuf)
      case written =>
        intro n sends c' inp hw
        obtain ⟨hrecorded, hunsent⟩ := hw.recorded hlog.recorded hbuf
        apply hok n c' sends inp hunsent hw.state_ne _ rfl
        constructor
        case alive => simpa using hlog.alive
        case usable_src => simpa using hlog.usable_src
        case usable_dst => simpa using hlog.usable_dst
        case handsOn => simpa [Machine.wrote, Machine.setShadowsocks, hne] using hlog.handsOn
        case rbufLen => simpa [Machine.wrote, Machine.setShadowsocks, hne] using hlog.rbufLen
        case connected => simpa [Machine.wrote, Machine.setShadowsocks] using hlog.connected
        case proto => exact Machine.proto_wrote _ _ _
        case recorded => exact hrecorded

theorem Machine.Bounded.congr {m m' : Machine κ} {c : TcpShadowsocks κ} (h : m.Bounded src dst c)
    (hrbufOff : (m'.conn src).rbufOff = (m.conn src).rbufOff)
    (hdst : (m'.conn dst).wbuf = (m.conn dst).wbuf ∧ (m'.conn dst).wbufLen = (m.conn dst).wbufLen
      ∧ (m'.conn dst).piped = (m.conn dst).piped ∧ (m'.conn dst).pipe = (m.conn dst).pipe)
    : m'.Bounded src dst c := by
  have hwbufLen := hdst.2.1
  constructor
  case owned => exact h.owned.congr hdst
  case rbufOff =>
    rw [hrbufOff]
    exact h.rbufOff
  case wbufLen =>
    rw [hwbufLen]
    exact h.wbufLen
  case init =>
    rw [hwbufLen]
    exact h.init

theorem Machine.bounded_advanced {m : Machine κ} {c : TcpShadowsocks κ} {n : Nat}
    (howned : m.Owned src dst) (hwbuf_ne : (m.conn dst).wbuf ≠ none)
    (hrbufOff : (m.conn src).rbufOff ≤ NET_IOBUF_LEN)
    (hwbufLen : (m.conn dst).wbufLen - n ≤ CHUNK_SIZE_MASK + c.unsent.length)
    (hstate : c.state ≠ .INIT)
    : (m.advanced dst n).Bounded src dst c := by
  constructor
  case owned => exact howned.advanced hwbuf_ne n
  case rbufOff => simpa [advanced, TcpConn.advance] using hrbufOff
  case wbufLen => simpa [advanced, TcpConn.advance] using hwbufLen
  case init => exact fun h => absurd h hstate

theorem Machine.Bounded.piped {m : Machine κ} {c : TcpShadowsocks κ} {n : Int}
    (h : (m.advanced dst n).Bounded src dst c) (howned : m.Owned src dst)
    (hwbuf_ne : (m.conn dst).wbuf ≠ none)
    : (m.piped src dst n).Bounded src dst c := by
  have howned := howned.piped hwbuf_ne n
  unfold Machine.piped at howned ⊢
  dsimp only at howned ⊢
  split
  . apply h.congr <;> simp [suspended]
  . next hlen =>
    rw [if_neg hlen] at howned
    refine ⟨howned, ?_, ?_, ?_⟩
    all_goals simp [released]
    omega

theorem Machine.length_pending {m : Machine κ} (h : (m.conn dst).wbuf ≠ none)
    : (m.pending dst).length = (m.conn dst).wbufLen.toNat := by
  unfold pending
  split
  . contradiction
  . exact Mem.length_read _ _ _

structure Machine.Offers (src dst : Side) (m : Machine (κ × List Nat)) (c : TcpShadowsocks (κ × List Nat))
    (n : Nat) : Prop where
  feeding : m.Feeding src dst c
  owned : m.Owned src dst
  rbufOff : (m.conn src).rbufOff = n
  wbuf_ne : (m.conn dst).wbuf ≠ none
  wbufLen : (m.conn dst).wbufLen = n

theorem Machine.Feeding.offers (h : m.Feeding src dst c) (hb : m.Bounded src dst c) (data : List Byte)
    : ((((m.piping src dst).received src (m.conn src).rbufOff data).restarted src).filled src dst
        data.length).Offers src dst c ((m.conn src).rbufOff + data.length) := by
  have hrefl : Outside src dst m m := .refl
  have hne := h.ne
  constructor
  case feeding => exact h.outside ((hrefl.piping.received _ data).restarted.filled data.length)
  case owned =>
    apply Owned.filled
    apply hb.owned.piping.congr
    simp [restarted, received]
  all_goals simp [filled, restarted, received, piping, hne]

theorem tcpPipe_limited (h : m.Feeding src dst c) (hb : m.Bounded src dst c)
    (hfull : c.tmpBuf = [] → (m.conn src).rbufOff
      + (netTcpRead ((m.conn src).rbufLen - (m.conn src).rbufOff) (m.inp.reads.headD [])).data.length
        < NET_IOBUF_LEN)
    : wp (tcpPipe E.recording src dst) (fun _ m => m.Limited src dst) (fun _ m => m.InLimit dst) m := by
  have hrefl : Machine.Outside src dst m m := .refl
  have hne := h.ne
  apply wp_tcpPipe h.alive h.usable_src h.usable_dst h.handsOn
  case hown =>
    intro p hp
    rw [hb.owned.wbuf p hp]
    exact h.usable_src
  case hread => exact fun _ => h.closed (hrefl.piping.received _ _) src _
  case hclosed => exact fun _ => h.closed (hrefl.piping.received _ _) src _
  case hnothing =>
    intro _
    apply Machine.Limited.running c (h.outside (hrefl.piping.received _ _).restarted)
    constructor
    case owned =>
      apply hb.owned.piping.congr
      simp [Machine.restarted, Machine.received]
    case rbufOff => simpa [Machine.restarted, Machine.received, Machine.piping] using hb.rbufOff
    case wbufLen => simpa [Machine.restarted, Machine.received, Machine.piping] using hb.wbufLen
    case init => simpa [Machine.restarted, Machine.received, Machine.piping] using hb.init
  case hwrite =>
    intro data hdata hle heq
    rw [heq] at hfull
    rw [h.rbufLen] at hle
    have hpos : 0 < data.length := List.length_pos_iff.mpr hdata
    have hmask : CHUNK_SIZE_MASK + 1 = NET_IOBUF_LEN := rfl
    intro m'
    have hoffers : m'.Offers src dst c ((m.conn src).rbufOff + data.length) := h.offers hb data
    clear_value m'
    have hroom : (m.conn src).rbufOff + data.length ≤ CHUNK_SIZE_MASK + c.unsent.length := by
      rcases h.recorded.tmpBufOff with ⟨htmpBuf, -⟩ | hoff
      . have := hfull htmpBuf
        dsimp only at this
        omega
      . rw [TcpShadowsocks.unsent, List.length_drop]
        omega
    have hunsent_nil : c.tmpBuf = [] → c.unsent.length = 0 := by
      intro htmpBuf
      simp [TcpShadowsocks.unsent, htmpBuf]
    have hwbufLen := hoffers.wbufLen
    apply wp_connWrite_feeding hoffers.feeding
    case hbuf =>
      intro htmpBuf _
      rw [hunsent_nil htmpBuf] at hroom
      rw [List.length_take, Machine.length_pending hoffers.wbuf_ne, Nat.min_self, hwbufLen,
        Int.toNat_natCast, withinLimit_iff]
      omega
    case hstate => omega
    case hclosed =>
      intro m₁ hm₁
      exact ⟨fun _ => hm₁, fun hne => absurd rfl hne⟩
    case hok =>
      intro n c' sends inp hunsent hstate m₁ hm₁ hfeed₁
      refine ⟨fun heq => absurd heq (by rw [ERR]; omega), fun _ => ?_⟩
      refine ⟨hfeed₁.usable_src, hfeed₁.usable_dst, ?_⟩
      apply Machine.Limited.running c' (hfeed₁.outside (.piped .refl n))
      have howned : m₁.Owned src dst := by
        apply hoffers.owned.congr
        simp [hm₁, Machine.wrote, Machine.setShadowsocks]
      have hwbuf_ne : (m₁.conn dst).wbuf ≠ none := by
        simpa [hm₁, Machine.wrote, Machine.setShadowsocks] using hoffers.wbuf_ne
      apply Machine.Bounded.piped _ howned hwbuf_ne
      apply Machine.bounded_advanced howned hwbuf_ne
      case hrbufOff =>
        simp [hm₁, Machine.wrote, Machine.setShadowsocks, hne, hoffers.rbufOff]
        omega
      case hwbufLen =>
        have heq : (m₁.conn dst).wbufLen = ((m.conn src).rbufOff + data.length : Nat) := by
          simp [hm₁, Machine.wrote, Machine.setShadowsocks, hwbufLen]
        rw [heq]
        rcases hunsent with htmpBuf | hunsent
        . rw [hunsent_nil htmpBuf] at hroom
          omega
        . omega
      case hstate => exact hstate

theorem tcpPipe_full (h : m.Feeding src dst c) (hb : m.Bounded src dst c) (htmpBuf : c.tmpBuf = [])
    (hstate : c.state ≠ .INIT) {data : List Byte} (hdata : data ≠ [])
    (heq : netTcpRead ((m.conn src).rbufLen - (m.conn src).rbufOff) (m.inp.reads.headD [])
      = ⟨data.length, false, data⟩)
    (hfull : (m.conn src).rbufOff + data.length = NET_IOBUF_LEN)
    : wp (tcpPipe E.recording src dst) (fun _ m => ¬m.InLimit dst) (fun _ m => ¬m.InLimit dst) m := by
  have hpos : 0 < data.length := List.length_pos_iff.mpr hdata
  have hne := h.ne
  have hread : ∀ nread closed, netTcpRead ((m.conn src).rbufLen - (m.conn src).rbufOff)
      (m.inp.reads.headD []) ≠ ⟨nread, closed, []⟩ := by
    intro nread closed heq'
    rw [heq] at heq'
    simp only [NetRead.mk.injEq] at heq'
    exact hdata heq'.2.2
  apply wp_tcpPipe h.alive h.usable_src h.usable_dst h.handsOn
  case hown =>
    intro p hp
    rw [hb.owned.wbuf p hp]
    exact h.usable_src
  case hread => exact fun h => absurd h (hread _ _)
  case hclosed => exact fun h => absurd h (hread _ _)
  case hnothing => exact fun h => absurd h (hread _ _)
  case hwrite =>
    intro data' _ _ heq'
    have hdata' : data' = data := by
      rw [heq] at heq'
      simp only [NetRead.mk.injEq] at heq'
      exact heq'.2.2.symm
    rw [hdata']
    intro m'
    have hoffers : m'.Offers src dst c ((m.conn src).rbufOff + data.length) := h.offers hb data
    rw [hfull] at hoffers
    clear_value m'
    have hwbufLen := hoffers.wbufLen
    have hlength : ((m'.pending dst).take (m'.conn dst).wbufLen.toNat).length = NET_IOBUF_LEN := by
      rw [List.length_take, Machine.length_pending hoffers.wbuf_ne, hwbufLen, Int.toNat_natCast,
        Nat.min_self]
    have hlog : (m'.log (.write dst (m'.conn dst).wbufLen)).Feeding src dst c :=
      hoffers.feeding.outside (.log .refl (by simp [Io.dataIn]) (by simp [Io.dataOut]))
    rw [wp_connWrite_shadowsocks hoffers.feeding.usable_dst hoffers.feeding.proto]
    apply wp_tcpShadowsocksConnWrite hlog.alive hlog.usable_dst hlog.proto
    . omega
    . exact .inl (Machine.remote_of_ne hne hlog.usable_src hlog.usable_dst)
    . constructor
      case failed =>
        intro sends c' inp err hfailed _
        refine ⟨fun _ => ?_, fun hne => absurd rfl hne⟩
        apply Machine.not_inLimit_of_proto _ (hfailed.exceeded htmpBuf hstate hlength)
        rw [Machine.conn_closed (by simpa using hlog.usable_dst), TcpConn.close]
        simp [Machine.withErr]
      case written =>
        intro n sends c' inp hw
        refine ⟨fun heq => absurd heq (by rw [ERR]; omega), fun _ => ?_⟩
        refine ⟨by simpa using hlog.usable_src, by simpa using hlog.usable_dst, ?_⟩
        apply Machine.not_inLimit_of_proto _ (hw.exceeded htmpBuf hlength)
        have hrefl : Machine.Outside src dst
            ((m'.log (.write dst (m'.conn dst).wbufLen)).wrote dst c' sends inp)
            ((m'.log (.write dst (m'.conn dst).wbufLen)).wrote dst c' sends inp) := .refl
        rw [((hrefl.piped n).conn dst).1, Machine.proto_wrote]

theorem tcpConnWriteHandler_limited (h : m.Feeding src dst c) (hb : m.Bounded src dst c)
    : wp (tcpConnWriteHandler E.recording dst) (fun _ m => m.Limited src dst)
        (fun _ m => m.InLimit dst) m := by
  have hdst := h.usable_dst
  simp only [tcpConnWriteHandler, handleTcpConnection, wp_bind, wp_deref hdst, h.connected,
    ↓reduceIte, wp_pure, ne_eq, not_true_eq_false]
  split
  . next hpiped =>
    have hpipe := hb.owned.pipe hpiped
    rw [wp_bind]
    apply wp_tcpPipeWrite hdst hpipe h.usable_src
    case hwbuf =>
      intro hne
      obtain ⟨p, hp⟩ := Option.ne_none_iff_exists'.mp (hb.owned.wbuf_ne hne)
      refine ⟨p, hp, ?_⟩
      rw [hb.owned.wbuf p hp]
      exact h.usable_src
    case hdone =>
      intro _
      apply Machine.Limited.running c (h.outside (.resumed .refl))
      refine ⟨hb.owned.resumed, ?_, ?_, ?_⟩
      all_goals simp [Machine.resumed]
      omega
    case hwrite =>
      intro hne
      have hwbuf_ne := hb.owned.wbuf_ne hne
      have hlen := hb.wbufLen
      apply wp_connWrite_feeding h
      case hbuf =>
        intro htmpBuf hnonneg
        simp only [TcpShadowsocks.unsent, htmpBuf, List.drop_nil, List.length_nil] at hlen
        rw [List.length_take, Machine.length_pending hwbuf_ne, Nat.min_self, withinLimit_iff]
        omega
      case hstate =>
        intro hneg hinit
        have := hb.init hinit
        omega
      case hclosed =>
        intro m₁ hm₁
        exact ⟨fun _ => hm₁, fun hne => absurd rfl hne⟩
      case hok =>
        intro n c' sends inp hunsent hstate m₁ hm₁ hfeed₁
        refine ⟨fun heq => absurd heq (by rw [ERR]; omega), fun _ => ⟨hfeed₁.usable_dst, ?_⟩⟩
        apply Machine.Limited.running c' (hfeed₁.outside (.pipeWritten .refl n))
        rw [Machine.pipeWritten_eq]
        have hadvanced : (m₁.advanced dst n).Bounded src dst c' := by
          apply Machine.bounded_advanced
          case howned =>
            apply hb.owned.congr
            simp [hm₁, Machine.wrote, Machine.setShadowsocks]
          case hrbufOff =>
            simpa [hm₁, Machine.wrote, Machine.setShadowsocks, h.ne] using hb.rbufOff
          case hwbuf_ne => simpa [hm₁, Machine.wrote, Machine.setShadowsocks] using hwbuf_ne
          case hwbufLen =>
            have heq : (m₁.conn dst).wbufLen = (m.conn dst).wbufLen := by
              simp [hm₁, Machine.wrote, Machine.setShadowsocks]
            rw [heq]
            rcases hunsent with htmpBuf | hunsent
            . simp only [TcpShadowsocks.unsent, htmpBuf, List.drop_nil, List.length_nil] at hlen
              omega
            . omega
          case hstate => exact hstate
        apply hadvanced.congr <;> simp
  . next hpiped =>
    simp only [fireWrite, wp_bind, wp_deref hdst, wp_pure]
    exact .running c h hb

theorem pipeStep_limited (h : m.Limited src src.other) {a : PipeEvent × Inputs (κ × List Nat)}
    (ha : NotFull src m a)
    : (pipeLeaves E.recording (.one src) m a).InLimit src.other
        ∧ ∀ m', pipeStep E.recording (.one src) m a = .ok m' → m'.Limited src src.other := by
  rcases a with ⟨ev, inp⟩
  have hsame : m.InLimit src.other ∧ ∀ m', Except.ok (ε := Fault) m = .ok m' → m'.Limited src src.other := by
    refine ⟨h.inLimit, ?_⟩
    intro m' hm'
    rw [← Except.ok.inj hm']
    exact h
  cases h with
  | ended re we inLimit =>
    cases ev with
    | readable s =>
      simp only [pipeLeaves, pipeStep, Pipes.one, decide_eq_true_eq]
      split
      . next hs =>
        rw [hs.1, re] at hs
        simp at hs
      . exact hsame
    | writable s =>
      simp only [pipeLeaves, pipeStep, Pipes.one, decide_eq_true_eq]
      split
      . next hs =>
        rw [hs.1, we] at hs
        simp at hs
      . exact hsame
  | running c h hb =>
    have hinp : (m.withInp inp).Feeding src src.other c := h.outside .withInp
    have hbinp : (m.withInp inp).Bounded src src.other c := hb.congr rfl ⟨rfl, rfl, rfl, rfl⟩
    cases ev with
    | readable s =>
      simp only [pipeLeaves, pipeStep, Pipes.one, decide_eq_true_eq]
      split
      . next hs =>
        obtain ⟨rfl, hre⟩ := hs
        exact leaves_of_wp (fun _ => Machine.Limited.inLimit)
          (tcpPipe_limited hinp hbinp (ha rfl hre c h.proto))
      . exact hsame
    | writable s =>
      simp only [pipeLeaves, pipeStep, Pipes.one, decide_eq_true_eq]
      split
      . next hs =>
        obtain ⟨rfl, hwe⟩ := hs
        exact leaves_of_wp (fun _ => Machine.Limited.inLimit) (tcpConnWriteHandler_limited hinp hbinp)
      . exact hsame

end

/-- The state in which the pipe from `src` starts, with nothing encrypted yet. -/
structure LimitStart (I : Inet) (m : Machine (κ × List Nat)) (src : Side)
    (c : TcpShadowsocks (κ × List Nat)) : Prop extends EncryptedStart m src c where
  rbufLen : (m.conn src).rbufLen = NET_IOBUF_LEN
  header : c.state = .INIT → ∃ uninit host port, c.addrbufDest = encodeAddr I uninit host port
    ∧ host.bytes.length < HOSTNAME_MAX_LEN
  recorded : c.eCtx.2 = []

namespace LimitStart

variable {I : Inet} {m : Machine (κ × List Nat)} {src : Side} {c : TcpShadowsocks (κ × List Nat)}

theorem feeding (h : LimitStart I m src c) : m.Feeding src src.other c := by
  have hheader : c.state = .INIT → WithinLimit c.addrbufDest.length := by
    intro hinit
    obtain ⟨uninit, host, port, heq, hlt⟩ := h.header hinit
    rw [heq, length_encodeAddr, withinLimit_iff]
    rw [HOSTNAME_MAX_LEN] at hlt
    unfold encodedLen CHUNK_SIZE_MASK
    split <;> omega
  exact ⟨h.alive, h.usable_src, h.usable_dst, h.handsOn, h.rbufLen, h.connected, h.proto,
    ⟨.inl ⟨h.tmpBuf, h.tmpBufOff⟩, hheader, by simp [h.recorded]⟩⟩

theorem bounded (h : LimitStart I m src c) : m.Bounded src src.other c := by
  refine ⟨⟨?_, ?_, ?_⟩, ?_, ?_, ?_⟩
  all_goals simp [h.rbufOff, h.piped, h.wbuf, h.wbufLen]
  omega

end LimitStart

/--
As long as no read fills the buffer, all plaintexts that the relay to a shadowsocks connection passes to
`encrypt` are within the limit.
-/
theorem encrypted_chunks_in_limit (E : Env κ) (src : Side) (m : Machine (κ × List Nat))
    (c : TcpShadowsocks (κ × List Nat)) (hm : LimitStart E.inet m src c)
    (as : List (PipeEvent × Inputs (κ × List Nat)))
    (has : Along (pipeStep E.recording (.one src)) (NotFull src) m as)
    : Along (pipeStep E.recording (.one src))
        (fun m a => (pipeLeaves E.recording (.one src) m a).InLimit src.other) m as := by
  apply has.of_invariant (I := Machine.Limited src src.other)
  . intro m a m' h ha heq
    exact (pipeStep_limited h ha).2 m' heq
  . intro m a h ha
    exact (pipeStep_limited h ha).1
  . exact .running c hm.feeding hm.bounded

theorem encrypted_chunks_in_limit_short_write
    : let E := Env.default .xsRedir .copy .text
      let c := TcpShadowsocks.client (encodeAddr .text .zero localhost 80) ((), [])
      let m := Machine.pair { TcpConn.new .raw true 60 with re := true }
        (.new (.shadowsocks c) true 60) ((), [])
      Along (pipeStep E.recording (.one .client))
        (fun m a => (pipeLeaves E.recording (.one .client) m a).InLimit .remote) m [
          (.readable .client, { Inputs.idle ((), []) with
            reads := [[.data [1, 2, 3]]], writes := [[.count 7], [.count 1]] }),
          (.writable .client, { Inputs.idle ((), []) with writes := [[.count 2]] })
        ] := by
  intro E c m
  apply encrypted_chunks_in_limit E .client m c
  . refine ⟨?_, rfl, fun _ => ⟨.zero, localhost, 80, rfl, by decide⟩, rfl⟩
    exact ⟨Machine.alive_pair rfl rfl, rfl, Machine.usable_pair rfl rfl _,
      Machine.usable_pair rfl rfl _, .raw, rfl, rfl, rfl, rfl, rfl, rfl, rfl, rfl⟩
  . refine ⟨fun _ _ c' _ _ => ?_, fun _ _ => ⟨trivial, fun _ _ => trivial⟩⟩
    decide +kernel

/-- xs-server reads as many bytes from the remote as its buffer holds. -/
theorem encrypted_chunk_exceeds_limit
    : let E := Env.default .xsServer .copy .text
      let c := { TcpShadowsocks.client [] ((), []) with state := .HANDSHAKE }
      let m := Machine.pair (.new (.shadowsocks c) true 60)
        { TcpConn.new .raw true 60 with re := true } ((), [])
      LimitStart E.inet m .remote c
        ∧ ¬Along (pipeStep E.recording (.one .remote))
            (fun m a => (pipeLeaves E.recording (.one .remote) m a).InLimit .client) m [
              (.readable .remote, { Inputs.idle ((), []) with
                reads := [[.data (List.replicate NET_IOBUF_LEN 0)]],
                writes := [[.count NET_IOBUF_LEN]] })
            ] := by
  intro E c m
  have hstart : LimitStart E.inet m .remote c := by
    refine ⟨?_, rfl, by simp [c], rfl⟩
    exact ⟨Machine.alive_pair rfl rfl, rfl, Machine.usable_pair rfl rfl _,
      Machine.usable_pair rfl rfl _, .raw, rfl, rfl, rfl, rfl, rfl, rfl, rfl, rfl⟩
  refine ⟨hstart, ?_⟩
  generalize hreplicate : List.replicate NET_IOBUF_LEN (0 : Byte) = data
  have hlength : data.length = NET_IOBUF_LEN := by
    rw [← hreplicate, List.length_replicate]
  have hdata : data ≠ [] := by
    apply List.ne_nil_of_length_pos
    rw [hlength]
    decide
  intro h
  let inp : Inputs (Unit × List Nat) :=
    { Inputs.idle ((), []) with reads := [[.data data]], writes := [[.count NET_IOBUF_LEN]] }
  have hfeeding : (m.withInp inp).Feeding .remote .client c := hstart.feeding.outside .withInp
  have hbounded : (m.withInp inp).Bounded .remote .client c :=
    hstart.bounded.congr rfl ⟨rfl, rfl, rfl, rfl⟩
  have hread : netTcpRead NET_IOBUF_LEN [.data data] = ⟨data.length, false, data⟩ := by
    apply netTcpRead_data hdata
    omega
  have hfull : 0 + data.length = NET_IOBUF_LEN := by omega
  have hexceeds := tcpPipe_full (E := E) hfeeding hbounded rfl (by simp [c]) hdata hread hfull
  exact (leaves_of_wp (fun _ => id) hexceeds).1 h.1

end Xsocks
