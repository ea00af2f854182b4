import Xsocks.Protocol.Lemmas.Socks5
import Xsocks.Tcp.Impl.Conn
import Xsocks.Tcp.Lemmas.Trace

/-!
This module contains what `tcpShadowsocksConnWrite` can do to its connection, and which bytes the
socket accepts in the course of it.
-/

namespace Xsocks

open Wp

variable {κ : Type}

namespace TcpShadowsocks

/-- The bytes that have been encrypted and not been accepted by the socket yet. -/
def unsent (c : TcpShadowsocks κ) : List Byte :=
  c.tmpBuf.drop c.tmpBufOff

def flushed (c : TcpShadowsocks κ) (n : Nat) : TcpShadowsocks κ :=
  if (n : Int) = c.tmpBuf.length - c.tmpBufOff then { c with tmpBuf := [], tmpBufOff := 0 }
  else { c with tmpBufOff := c.tmpBufOff + n }

inductive Opened (C : Crypto κ) (c : TcpShadowsocks κ) : List (List Byte) → TcpShadowsocks κ → Prop
  | INIT (state : c.state = .INIT) (h : List Byte) (eCtx : κ)
      (encrypt : C.encrypt c.eCtx c.addrbufDest = some (h, eCtx))
      : Opened C c [h] { c with addrbufDest := h, eCtx := eCtx, state := .HANDSHAKE }
  | HANDSHAKE (state : c.state = .HANDSHAKE) : Opened C c [] { c with state := .STREAM }
  | STREAM (state : c.state = .STREAM) : Opened C c [] c

inductive Staged (C : Crypto κ) (buf : List Byte) (c : TcpShadowsocks κ) : TcpShadowsocks κ → Prop
  | fresh (tmpBuf : c.tmpBuf = []) (ct : List Byte) (eCtx : κ)
      (encrypt : C.encrypt c.eCtx buf = some (ct, eCtx))
      : Staged C buf c { c with tmpBuf := ct, eCtx := eCtx }
  | left (tmpBuf : c.tmpBuf ≠ []) : Staged C buf c c

/--
A call that returns the count `n`, in the course of which the socket accepts `sends`. The outcomes of
its writes are `ws`, the first of which is for the header if there is one.
-/
inductive Written (C : Crypto κ) (buf : List Byte) (ws : List (List WriteRes))
    (c : TcpShadowsocks κ) (n : Nat) : List (List Byte) → TcpShadowsocks κ → Prop
  | intro (sends : List (List Byte)) (c₁ c₂ : TcpShadowsocks κ) (opened : Opened C c sends c₁)
      (staged : Staged C buf c₁ c₂) (le : n ≤ c₂.unsent.length)
      (eq : netTcpWrite (c₂.tmpBuf.length - c₂.tmpBufOff) ((ws.drop sends.length).headD []) = n)
      : Written C buf ws c n (sends ++ [c₂.unsent.take n]) (c₂.flushed n)

inductive WriteFailed (C : Crypto κ) (buf : List Byte) (c : TcpShadowsocks κ)
    : List (List Byte) → TcpShadowsocks κ → Prop
  | encryptHeader (state : c.state = .INIT) (encrypt : C.encrypt c.eCtx c.addrbufDest = none)
      : WriteFailed C buf c [] c
  | writeHeader (state : c.state = .INIT) (h : List Byte) (eCtx : κ)
      (encrypt : C.encrypt c.eCtx c.addrbufDest = some (h, eCtx)) (n : Nat) (lt : n < h.length ∨ n = 0)
      : WriteFailed C buf c [h.take n] { c with addrbufDest := h, eCtx := eCtx }
  | encrypt (sends : List (List Byte)) (c₁ : TcpShadowsocks κ) (opened : Opened C c sends c₁)
      (tmpBuf : c₁.tmpBuf = []) (encrypt : C.encrypt c₁.eCtx buf = none)
      : WriteFailed C buf c sends c₁
  | write (sends : List (List Byte)) (c₁ c₂ : TcpShadowsocks κ) (opened : Opened C c sends c₁)
      (staged : Staged C buf c₁ c₂)
      : WriteFailed C buf c (sends ++ [[]]) c₂

end TcpShadowsocks

namespace Machine

def setShadowsocks (m : Machine κ) (s : Side) (c : TcpShadowsocks κ) : Machine κ :=
  m.upd s fun conn => { conn with proto := .shadowsocks c }

/--
The state after the write handler of `s` has left its part of the connection as `c` and had `sends`
accepted.
-/
def wrote (m : Machine κ) (s : Side) (c : TcpShadowsocks κ) (sends : List (List Byte))
    (inp : Inputs κ) : Machine κ :=
  { (m.setShadowsocks s c).logs (sends.map (.send s)) with inp := inp }

variable {m : Machine κ} {s t : Side}

@[simp]
theorem usable_setShadowsocks (c : TcpShadowsocks κ)
    : (m.setShadowsocks s c).Usable t ↔ m.Usable t := by
  simp [setShadowsocks]

@[simp]
theorem alive_setShadowsocks (c : TcpShadowsocks κ)
    : (m.setShadowsocks s c).Alive ↔ m.Alive := by
  simp [setShadowsocks]

@[simp]
theorem proto_setShadowsocks (c : TcpShadowsocks κ)
    : ((m.setShadowsocks s c).conn s).proto = .shadowsocks c := by
  simp [setShadowsocks]

@[simp]
theorem setShadowsocks_setShadowsocks (c c' : TcpShadowsocks κ)
    : (m.setShadowsocks s c).setShadowsocks s c' = m.setShadowsocks s c' := by
  simp [setShadowsocks, upd]

@[simp]
theorem inp_setShadowsocks (c : TcpShadowsocks κ) : (m.setShadowsocks s c).inp = m.inp := by
  rfl

theorem setShadowsocks_self {c : TcpShadowsocks κ} (hc : (m.conn s).proto = .shadowsocks c)
    : m.setShadowsocks s c = m := by
  simp [setShadowsocks, upd, ← hc]

theorem sent_eq_wrote {c : TcpShadowsocks κ} (hc : (m.conn s).proto = .shadowsocks c)
    (data : List Byte)
    : m.sent s data = m.wrote s c [data] m.popWrites.inp := by
  rw [wrote, setShadowsocks_self hc]
  rfl

@[simp]
theorem setShadowsocks_wrote (c c' : TcpShadowsocks κ) (sends : List (List Byte)) (inp : Inputs κ)
    : (m.wrote s c sends inp).setShadowsocks s c' = m.wrote s c' sends inp := by
  simp [setShadowsocks, wrote, upd, logs]

@[simp]
theorem wrote_setShadowsocks (c c' : TcpShadowsocks κ) (sends : List (List Byte)) (inp : Inputs κ)
    : (m.setShadowsocks s c).wrote s c' sends inp = m.wrote s c' sends inp := by
  simp [wrote]

@[simp]
theorem wrote_wrote (c c' : TcpShadowsocks κ) (sends sends' : List (List Byte)) (inp inp' : Inputs κ)
    : (m.wrote s c sends inp).wrote s c' sends' inp' = m.wrote s c' (sends ++ sends') inp' := by
  simp [setShadowsocks, wrote, upd, logs]

theorem setShadowsocks_eq_wrote (c : TcpShadowsocks κ)
    : m.setShadowsocks s c = m.wrote s c [] m.inp := by
  simp [setShadowsocks, wrote, upd, logs]

theorem wrote_nil {c : TcpShadowsocks κ} (hc : (m.conn s).proto = .shadowsocks c)
    : m.wrote s c [] m.inp = m := by
  rw [← setShadowsocks_eq_wrote, setShadowsocks_self hc]

theorem withErr_wrote (c : TcpShadowsocks κ) (sends : List (List Byte)) (inp : Inputs κ)
    : (m.wrote s c sends inp).withErr s (m.conn s).err = m.wrote s c sends inp := by
  simp [withErr, wrote, setShadowsocks, upd, logs]

@[simp]
theorem inp_wrote (c : TcpShadowsocks κ) (sends : List (List Byte)) (inp : Inputs κ)
    : (m.wrote s c sends inp).inp = inp := by
  rfl

@[simp]
theorem remote_wrote (c : TcpShadowsocks κ) (sends : List (List Byte)) (inp : Inputs κ)
    : (m.wrote s c sends inp).remote = m.remote := by
  rfl

@[simp]
theorem usable_wrote (c : TcpShadowsocks κ) (sends : List (List Byte)) (inp : Inputs κ)
    : (m.wrote s c sends inp).Usable t ↔ m.Usable t := by
  rw [← usable_setShadowsocks (m := m) (s := s) c]
  exact usable_congr rfl rfl

@[simp]
theorem alive_wrote (c : TcpShadowsocks κ) (sends : List (List Byte)) (inp : Inputs κ)
    : (m.wrote s c sends inp).Alive ↔ m.Alive := by
  rw [← alive_setShadowsocks (m := m) (s := s) c]
  exact alive_congr (fun _ => rfl) rfl

@[simp]
theorem proto_wrote (c : TcpShadowsocks κ) (sends : List (List Byte)) (inp : Inputs κ)
    : ((m.wrote s c sends inp).conn s).proto = .shadowsocks c := by
  simp [wrote]

@[simp]
theorem trace_wrote (c : TcpShadowsocks κ) (sends : List (List Byte)) (inp : Inputs κ)
    : (m.wrote s c sends inp).trace = m.trace ++ sends.map (.send s) := by
  rfl

end Machine

section

variable {m : Machine κ} {s : Side} {F : Fault → Machine κ → Prop} {c : TcpShadowsocks κ}

@[simp]
theorem wp_derefShadowsocks (hs : m.Usable s) (hc : (m.conn s).proto = .shadowsocks c)
    (Q : TcpShadowsocks κ → Machine κ → Prop)
    : wp (derefShadowsocks s) Q F m ↔ Q c m := by
  simp [derefShadowsocks, hs, hc]

@[simp]
theorem wp_assignShadowsocks (hs : m.Usable s) (hc : (m.conn s).proto = .shadowsocks c)
    (f : TcpShadowsocks κ → TcpShadowsocks κ) (Q : Unit → Machine κ → Prop)
    : wp (assignShadowsocks s f) Q F m ↔ Q () (m.setShadowsocks s (f c)) := by
  rw [assignShadowsocks, wp_assign hs]
  have : (m.upd s fun conn => conn.updShadowsocks f) = m.setShadowsocks s (f c) := by
    simp [Machine.upd, Machine.setShadowsocks, TcpConn.updShadowsocks, hc]
  rw [this]

theorem wp_tcpWrite_shadowsocks (h : m.Alive) (hs : m.Usable s)
    (hc : (m.conn s).proto = .shadowsocks c) (buf : List Byte) (bufLen : Int)
    {Q : Int → Machine κ → Prop}
    (herr : ∀ inp, 0 < bufLen
      → Q ERR (((m.wrote s c [[]] inp).withErr s .TCP_ERROR_WRITE).closed s))
    (hok : ∀ (n : Nat) inp, n ≤ bufLen.toNat
      → netTcpWrite bufLen (m.inp.writes.headD []) = n → inp.writes = m.inp.writes.tail
      → Q n (m.wrote s c [buf.take n] inp))
    : wp (tcpWrite s buf bufLen) Q F m := by
  rw [wp_tcpWrite h hs]
  dsimp only
  rcases netTcpWrite_cases bufLen (m.inp.writes.headD []) with heq | ⟨n, hle, heq⟩
  . have hpos : 0 < bufLen := by
      apply Int.not_le.mp
      intro hle
      rw [netTcpWrite_of_nonpos _ hle] at heq
      contradiction
    rw [Machine.netWrite, heq, if_pos rfl, Machine.sent_eq_wrote hc]
    exact herr _ hpos
  . rw [Machine.netWrite, heq, if_neg (by rw [ERR]; omega), Int.toNat_natCast,
      Machine.sent_eq_wrote hc]
    exact hok n _ hle heq rfl

theorem wp_flush (h : m.Alive) (hs : m.Usable s) (hc : (m.conn s).proto = .shadowsocks c)
    {Q : Int → Machine κ → Prop}
    (herr : ∀ inp, Q ERR (((m.wrote s c [[]] inp).withErr s .TCP_ERROR_WRITE).closed s))
    (hok : ∀ (n : Nat) inp, n ≤ c.unsent.length
      → netTcpWrite (c.tmpBuf.length - c.tmpBufOff) (m.inp.writes.headD []) = n
      → Q n (m.wrote s (c.flushed n) [c.unsent.take n] inp))
    : wp (tcpShadowsocksConnWrite.flush s) Q F m := by
  rw [tcpShadowsocksConnWrite.flush, wp_bind, wp_derefShadowsocks hs hc, wp_bind]
  apply wp_tcpWrite_shadowsocks h hs hc
  . intro inp hpos
    have hne : ERR ≠ c.tmpBuf.length - c.tmpBufOff := by
      rw [ERR]
      omega
    rw [if_neg hne, if_neg (by simp [ERR]), wp_pure]
    exact herr inp
  . intro n inp hle heq _
    have hok := hok n inp (by rw [TcpShadowsocks.unsent, List.length_drop]; omega) heq
    rw [TcpShadowsocks.flushed, TcpShadowsocks.unsent] at hok
    split
    . next heq =>
      rw [if_pos heq] at hok
      simpa [hs] using hok
    . next hne =>
      rw [if_neg hne] at hok
      split
      . simpa [hs] using hok
      . next hn =>
        have hn : n = 0 := by omega
        rw [hn] at hok ⊢
        simpa using hok

variable {E : Env κ} {buf : List Byte} {bufLen : Int}

theorem wp_stream (h : m.Alive) (hs : m.Usable s) (hc : (m.conn s).proto = .shadowsocks c)
    (hlen : bufLen < 0 → c.tmpBuf = [] → F .memcpyLength m) {Q : Int → Machine κ → Prop}
    (hencrypt : c.tmpBuf = [] → E.crypto.encrypt c.eCtx (buf.take bufLen.toNat) = none
      → Q ERR ((m.withErr s .ERROR_SHADOWSOCKS_ENCRYPT).closed s))
    (herr : ∀ c' inp, c.Staged E.crypto (buf.take bufLen.toNat) c'
      → Q ERR (((m.wrote s c' [[]] inp).withErr s .TCP_ERROR_WRITE).closed s))
    (hok : ∀ c' (n : Nat) inp, c.Staged E.crypto (buf.take bufLen.toNat) c' → n ≤ c'.unsent.length
      → netTcpWrite (c'.tmpBuf.length - c'.tmpBufOff) (m.inp.writes.headD []) = n
      → Q n (m.wrote s (c'.flushed n) [c'.unsent.take n] inp))
    : wp (tcpShadowsocksConnWrite.stream E s buf bufLen) Q F m := by
  rw [tcpShadowsocksConnWrite.stream, wp_bind, wp_derefShadowsocks hs hc]
  simp only [List.length_eq_zero_iff]
  split
  . next htmp =>
    split
    . next hneg => exact hlen hneg htmp
    . split
      . next heq => simpa [h, hs] using hencrypt htmp heq
      . next ct eCtx heq =>
        have hstaged := TcpShadowsocks.Staged.fresh htmp ct eCtx heq
        rw [wp_bind, wp_assignShadowsocks hs hc]
        apply wp_flush (by simpa using h) (by simpa using hs) (Machine.proto_setShadowsocks _)
        . intro inp
          simpa using herr _ inp hstaged
        . intro n inp hn heq
          simpa using hok _ n inp hstaged hn heq
  . next htmp =>
    have hstaged : c.Staged E.crypto (buf.take bufLen.toNat) c := .left htmp
    apply wp_flush h hs hc
    . intro inp
      exact herr _ inp hstaged
    . intro n inp hn heq
      exact hok _ n inp hstaged hn heq

structure WritePost (C : Crypto κ) (m : Machine κ) (s : Side) (buf : List Byte)
    (c : TcpShadowsocks κ) (Q : Int → Machine κ → Prop) : Prop where
  failed : ∀ sends c' inp err, c.WriteFailed C buf sends c'
    → err ≠ .TCP_ERROR_CLOSED ∨ err = (m.conn s).err
    → Q ERR (((m.wrote s c' sends inp).withErr s err).closed s)
  written : ∀ (n : Nat) sends c' inp, c.Written C buf m.inp.writes n sends c'
    → Q n (m.wrote s c' sends inp)

theorem wp_stream_opened (h : m.Alive) (hs : m.Usable s) {Q : Int → Machine κ → Prop}
    (hlen : bufLen < 0 → ∀ sends c' inp, c.Opened E.crypto sends c' → c'.tmpBuf = []
      → F .memcpyLength (m.wrote s c' sends inp))
    (hQ : WritePost E.crypto m s (buf.take bufLen.toNat) c Q) {sends : List (List Byte)}
    {c₁ : TcpShadowsocks κ} (hopened : c.Opened E.crypto sends c₁) {inp : Inputs κ}
    (hinp : inp.writes = m.inp.writes.drop sends.length)
    : wp (tcpShadowsocksConnWrite.stream E s buf bufLen) Q F (m.wrote s c₁ sends inp) := by
  apply wp_stream (by simpa using h) (by simpa using hs) (Machine.proto_wrote _ _ _)
  . intro hneg htmp
    exact hlen hneg sends c₁ inp hopened htmp
  . intro htmp hencrypt
    exact hQ.failed _ _ _ _ (.encrypt sends c₁ hopened htmp hencrypt) (.inl (by simp))
  . intro c₂ inp hstaged
    rw [Machine.wrote_wrote]
    exact hQ.failed _ _ _ _ (.write sends c₁ c₂ hopened hstaged) (.inl (by simp))
  . intro c₂ n inp' hstaged hn heq
    rw [Machine.inp_wrote, hinp] at heq
    rw [Machine.wrote_wrote]
    exact hQ.written _ _ _ _ (.intro sends c₁ c₂ hopened hstaged hn heq)

theorem wp_tcpShadowsocksConnWrite (h : m.Alive) (hs : m.Usable s)
    (hc : (m.conn s).proto = .shadowsocks c)
    (hlen : bufLen < 0 → ∀ sends c' inp, c.Opened E.crypto sends c' → c'.tmpBuf = []
      → F .memcpyLength (m.wrote s c' sends inp))
    (hnull : m.remote = true ∨ ∀ m, F .nullDeref m) {Q : Int → Machine κ → Prop}
    (hQ : WritePost E.crypto m s (buf.take bufLen.toNat) c Q)
    : wp (tcpShadowsocksConnWrite E s buf bufLen) Q F m := by
  rw [tcpShadowsocksConnWrite, wp_bind, wp_derefShadowsocks hs hc]
  cases hstate : c.state with
  | INIT =>
    dsimp only
    split
    . next heq =>
      have := hQ.failed [] c m.inp .ERROR_SHADOWSOCKS_ENCRYPT (.encryptHeader hstate heq)
        (.inl (by simp))
      rw [Machine.wrote_nil hc] at this
      simpa [h, hs] using this
    . next ct eCtx heq =>
      rw [wp_bind, wp_assignShadowsocks hs hc, wp_bind]
      apply wp_tcpWrite_shadowsocks (by simpa using h) (by simpa using hs)
        (Machine.proto_setShadowsocks _)
      . intro inp _
        rw [if_pos (by simp [ERR]), wp_pure, Machine.wrote_setShadowsocks]
        have := hQ.failed [ct.take 0] _ inp .TCP_ERROR_WRITE
          (.writeHeader hstate ct eCtx heq 0 (.inr rfl)) (.inl (by simp))
        simpa using this
      . intro n inp hn _ hinp
        rw [Int.toNat_natCast] at hn
        rw [if_neg (by omega), Machine.wrote_setShadowsocks]
        split
        . next hne =>
          have hlt : n < ct.length := by omega
          have := hQ.failed _ _ inp (m.conn s).err (.writeHeader hstate ct eCtx heq n (.inl hlt))
            (.inr rfl)
          rw [Machine.withErr_wrote] at this
          rw [wp_failed (by simpa using h) (by simpa using hs)]
          split
          . next hcond =>
            rcases hnull with hnull | hnull
            . rw [Machine.remote_wrote, hnull] at hcond
              simp at hcond
            . exact hnull _
          . exact this
        . next heqn =>
          have heqn : n = ct.length := by omega
          rw [wp_bind, wp_assignShadowsocks (by simpa using hs) (Machine.proto_wrote _ _ _),
            Machine.setShadowsocks_wrote, heqn, List.take_length]
          exact wp_stream_opened h hs hlen hQ (.INIT hstate ct eCtx heq) (by simpa using hinp)
  | HANDSHAKE =>
    dsimp only
    rw [wp_bind, wp_assignShadowsocks hs hc, Machine.setShadowsocks_eq_wrote]
    exact wp_stream_opened h hs hlen hQ (.HANDSHAKE hstate) rfl
  | STREAM =>
    dsimp only
    rw [← Machine.wrote_nil hc]
    exact wp_stream_opened h hs hlen hQ (.STREAM hstate) rfl

end

namespace TcpShadowsocks

def reading (c : TcpShadowsocks κ) : TcpShadowsocks κ :=
  if c.state = .HANDSHAKE then { c with state := .STREAM } else c

variable {c : TcpShadowsocks κ}

theorem reading_of_INIT (h : c.state = .INIT) : c.reading = c := by
  simp [reading, h]

@[simp]
theorem state_reading : c.reading.state = .INIT ↔ c.state = .INIT := by
  unfold reading
  split
  . next h => simp [h]
  . rfl

@[simp]
theorem dCtx_reading : c.reading.dCtx = c.dCtx := by
  unfold reading
  split <;> rfl

@[simp]
theorem eCtx_reading : c.reading.eCtx = c.eCtx := by
  unfold reading
  split <;> rfl

@[simp]
theorem tmpBuf_reading : c.reading.tmpBuf = c.tmpBuf := by
  unfold reading
  split <;> rfl

@[simp]
theorem tmpBufOff_reading : c.reading.tmpBufOff = c.tmpBufOff := by
  unfold reading
  split <;> rfl

end TcpShadowsocks

namespace Machine

def decrypted (m : Machine κ) (s : Side) (off : Nat) (plaintext : List Byte) : Machine κ :=
  m.upd s fun conn => { conn with rbuf := conn.rbuf.write off plaintext }

variable {m : Machine κ} {s t : Side}

@[simp]
theorem usable_decrypted (off : Nat) (plaintext : List Byte)
    : (m.decrypted s off plaintext).Usable t ↔ m.Usable t := by
  simp [decrypted]

@[simp]
theorem alive_decrypted (off : Nat) (plaintext : List Byte)
    : (m.decrypted s off plaintext).Alive ↔ m.Alive := by
  simp [decrypted]

@[simp]
theorem proto_decrypted (off : Nat) (plaintext : List Byte)
    : ((m.decrypted s off plaintext).conn t).proto = (m.conn t).proto := by
  simp [decrypted]

@[simp]
theorem proto_received (off : Nat) (data : List Byte)
    : ((m.received s off data).conn t).proto = (m.conn t).proto := by
  simp [received]

@[simp]
theorem proto_restarted : ((m.restarted s).conn t).proto = (m.conn t).proto := by
  simp [restarted]

end Machine

section

variable {m : Machine κ} {s : Side} {F : Fault → Machine κ → Prop} {c : TcpShadowsocks κ} {E : Env κ}
  {off : Nat} {bufLen : Int} {Q : Int → Machine κ → Prop}

/--
The ends of the read handler once it has the plaintext: only in its first state it expects an
address.
-/
def ParsePost (E : Env κ) (s : Side) (c : TcpShadowsocks κ) (plaintext : List Byte)
    (Q : Int → Machine κ → Prop) (m : Machine κ) : Prop :=
  if c.state = .INIT then
    match parseAddr E.inet plaintext with
    | none => Q ERR ((m.withErr s .ERROR_SHADOWSOCKS_SOCKS5).closed s)
    | some addr =>
      let addrbufDest := encodeAddr E.inet m.inp.uninit (.ofBuf addr.host) addr.port
      Q plaintext.length
        (m.setShadowsocks s { c with addrbufDest := addrbufDest, state := .HANDSHAKE })
  else Q plaintext.length m

theorem ParsePost.mono {plaintext : List Byte} {Q' : Int → Machine κ → Prop}
    (h : ParsePost E s c plaintext Q m) (hQ : ∀ n m, Q n m → Q' n m)
    : ParsePost E s c plaintext Q' m := by
  unfold ParsePost at h ⊢
  split
  . next hinit =>
    rw [if_pos hinit] at h
    cases hparse : parseAddr E.inet plaintext with
    | none =>
      rw [hparse] at h
      exact hQ _ _ h
    | some addr =>
      rw [hparse] at h
      exact hQ _ _ h
  . next hinit =>
    rw [if_neg hinit] at h
    exact hQ _ _ h

def DecryptPost (E : Env κ) (s : Side) (c : TcpShadowsocks κ) (off : Nat) (bufLen : Int)
    (d : Decrypted κ) (Q : Int → Machine κ → Prop) (F : Fault → Machine κ → Prop) (m : Machine κ)
    : Prop :=
  if bufLen < d.demand then F .brealloc m
  else
    let c := { c with dCtx := d.dCtx }
    match d.res with
    | .CRYPTO_OK plaintext =>
      ParsePost E s c plaintext Q ((m.setShadowsocks s c).decrypted s off plaintext)
    | _ => Q ERR (((m.setShadowsocks s c).withErr s .ERROR_SHADOWSOCKS_DECRYPT).closed s)

theorem wp_parsed (h : m.Alive) (hs : m.Usable s) (hc : (m.conn s).proto = .shadowsocks c)
    {plaintext : List Byte} (hrbuf : (m.conn s).rbuf.read off plaintext.length = plaintext)
    : wp (tcpShadowsocksConnRead.parsed E s off plaintext.length) Q F m
        ↔ ParsePost E s c plaintext Q m := by
  rw [tcpShadowsocksConnRead.parsed, wp_bind, wp_deref hs, wp_bind, wp_derefShadowsocks hs hc,
    ParsePost, socks5AddrParse_eq plaintext (by simpa using hrbuf)]
  split
  . cases hparse : parseAddr E.inet plaintext with
    | none => simp [h, hs]
    | some addr => simp [tcpShadowsocksConnInit, hs, hc]
  . simp

theorem wp_decrypted (h : m.Alive) (hs : m.Usable s) (hc : (m.conn s).proto = .shadowsocks c)
    (d : Decrypted κ)
    : wp (tcpShadowsocksConnRead.decrypted E s off bufLen d) Q F m
        ↔ DecryptPost E s c off bufLen d Q F m := by
  rw [tcpShadowsocksConnRead.decrypted, DecryptPost]
  split
  . simp
  . rw [wp_bind, wp_assignShadowsocks hs hc]
    cases hres : d.res with
    | CRYPTO_OK plaintext =>
      dsimp only
      rw [wp_bind, wp_assign (by simpa using hs), ← Machine.decrypted,
        wp_parsed (by simpa using h) (by simpa using hs)
          (by rw [Machine.proto_decrypted, Machine.proto_setShadowsocks])]
      simp [Machine.decrypted]
    | CRYPTO_NEED_MORE => simp [h, hs]
    | CRYPTO_ERROR => simp [h, hs]

theorem wp_tcpShadowsocksConnRead (h : m.Alive) (hs : m.Usable s)
    (hc : (m.conn s).proto = .shadowsocks c)
    : wp (tcpShadowsocksConnRead E s off bufLen) Q F m
        ↔
      let res := m.netRead bufLen
      let m := (m.setShadowsocks s c.reading).received s off res.data
      if res.nread = ERR then Q ERR ((m.withErr s .TCP_ERROR_READ).closed s)
      else if res.nread = 0 ∧ res.closed = true then
        Q ERR ((m.withErr s .TCP_ERROR_CLOSED).closed s)
      else if res.nread ≤ 0 then Q res.nread (m.restarted s)
      else
        DecryptPost E s c.reading off bufLen (E.crypto.decrypt c.dCtx res.data) Q F
          (m.restarted s) := by
  have hnetRead : (m.setShadowsocks s c.reading).netRead bufLen = m.netRead bufLen := by rfl
  rw [tcpShadowsocksConnRead, wp_bind, wp_assignShadowsocks hs hc, ← TcpShadowsocks.reading, wp_bind,
    wp_tcpRead (by simpa using h) (by simpa using hs), hnetRead]
  dsimp only
  rcases netTcpRead_cases bufLen (m.inp.reads.headD []) with heq | heq | heq | heq
  . rw [Machine.netRead, heq]
    simp [ERR]
  . rw [Machine.netRead, heq]
    simp [ERR]
  . rw [Machine.netRead, heq]
    simp [ERR]
  . obtain ⟨data, hne, hle, heq⟩ := heq
    have hpos : 0 < data.length := List.length_pos_iff.mpr hne
    have hs' : (((m.setShadowsocks s c.reading).received s off data).restarted s).Usable s := by
      simpa using hs
    have hc' : ((((m.setShadowsocks s c.reading).received s off data).restarted s).conn s).proto
        = .shadowsocks c.reading := by
      simp
    have hrbuf : ((((m.setShadowsocks s c.reading).received s off data).restarted s).conn
        s).rbuf.read off data.length = data := by
      simp [Machine.received, Machine.restarted]
    rw [Machine.netRead, heq]
    dsimp only
    rw [if_neg (by rw [ERR]; omega), if_neg (by simp), if_neg (by omega), if_neg (by rw [ERR]; omega),
      if_neg (by simp), if_neg (by omega), wp_bind, wp_deref hs', wp_bind, wp_derefShadowsocks hs' hc',
      TcpShadowsocks.dCtx_reading, Int.toNat_natCast, hrbuf]
    exact wp_decrypted (by simpa using h) hs' hc' _

end

end Xsocks
