import Xsocks.Lib.Chunks
import Xsocks.Lib.Run
import Xsocks.Protocol.Lemmas.Crypto
import Xsocks.Protocol.Lemmas.Inet
import Xsocks.Tcp.Impl.App
import Xsocks.Tcp.Lemmas.Shadowsocks

/-!
This module contains the ciphertext stream of a shadowsocks connection: whatever the socket does, the
bytes it accepts are the encryptions of the data in order, without a gap.
-/

namespace Xsocks

open Wp Run Chunks

variable {κ : Type}

/--
The chunks `plain` have been encrypted in order since the cipher context was `eCtx`. The socket has
accepted `accepted` of it, the rest is what the connection keeps.
-/
structure Emitted (C : Crypto κ) (eCtx : κ) (plain : List (List Byte)) (accepted : List Byte)
    (c : TcpShadowsocks κ) : Prop where
  encodeAll : encodeAll C.encrypt eCtx plain = some (accepted ++ c.unsent, c.eCtx)
  tmpBufOff : c.tmpBufOff ≤ c.tmpBuf.length

namespace TcpShadowsocks

/-- The header that the next call of the write handler is going to send. -/
def header (c : TcpShadowsocks κ) : List (List Byte) :=
  if c.state = .INIT then [c.addrbufDest] else []

def takes (c : TcpShadowsocks κ) (buf : List Byte) : List (List Byte) :=
  if c.tmpBuf = [] then [buf] else []

variable {C : Crypto κ} {eCtx : κ} {plain : List (List Byte)} {accepted buf : List Byte}
  {c c₁ c₂ : TcpShadowsocks κ} {sends : List (List Byte)}

theorem Opened.state_ne (h : Opened C c sends c₁) : c₁.state ≠ .INIT := by
  cases h with
  | INIT => simp
  | HANDSHAKE => simp
  | STREAM state => simp [state]

theorem Opened.tmpBuf (h : Opened C c sends c₁) : c₁.tmpBuf = c.tmpBuf := by
  cases h <;> rfl

theorem Opened.emitted (h : Opened C c sends c₁) (he : Emitted C eCtx plain accepted c)
    (hinit : c.state = .INIT → c.tmpBuf = [])
    : Emitted C eCtx (plain ++ c.header) (accepted ++ sends.flatten) c₁ := by
  cases h with
  | INIT state h eCtx' encrypt =>
    have hunsent : c.unsent = [] := by simp [unsent, hinit state]
    have hencode := he.encodeAll
    rw [hunsent, List.append_nil] at hencode
    constructor
    . rw [header, if_pos state, encodeAll_concat hencode encrypt]
      simp [unsent, hinit state]
    . exact he.tmpBufOff
  | HANDSHAKE state =>
    simpa [header, state] using ⟨he.encodeAll, he.tmpBufOff⟩
  | STREAM state =>
    simpa [header, state] using he

theorem Staged.state (h : Staged C buf c c₁) : c₁.state = c.state := by
  cases h <;> rfl

theorem Staged.emitted (h : Staged C buf c c₁) (he : Emitted C eCtx plain accepted c)
    : Emitted C eCtx (plain ++ c.takes buf) accepted c₁ := by
  cases h with
  | fresh tmpBuf ct eCtx' encrypt =>
    have hoff : c.tmpBufOff = 0 := by
      have := he.tmpBufOff
      simpa [tmpBuf] using this
    have hencode := he.encodeAll
    rw [unsent, tmpBuf, List.drop_nil, List.append_nil] at hencode
    constructor
    . rw [takes, if_pos tmpBuf, encodeAll_concat hencode encrypt]
      simp [unsent, hoff]
    . simp [hoff]
  | left tmpBuf =>
    simpa [takes, tmpBuf] using he

theorem emitted_flushed (he : Emitted C eCtx plain accepted c) {n : Nat} (hn : n ≤ c.unsent.length)
    : Emitted C eCtx plain (accepted ++ c.unsent.take n) (c.flushed n) := by
  have hlen : c.unsent.length = c.tmpBuf.length - c.tmpBufOff := by simp [unsent]
  have hle := he.tmpBufOff
  unfold flushed
  split
  . next heq =>
    have heq : n = c.unsent.length := by omega
    constructor
    . rw [heq, List.take_length]
      simpa [unsent] using he.encodeAll
    . simp
  . constructor
    . have hunsent : { c with tmpBufOff := c.tmpBufOff + n }.unsent = c.unsent.drop n := by
        simp [unsent]
      rw [hunsent, List.append_assoc, List.take_append_drop]
      exact he.encodeAll
    . dsimp only
      omega

theorem Written.emitted {ws : List (List WriteRes)} {n : Nat} (h : Written C buf ws c n sends c₁)
    (he : Emitted C eCtx plain accepted c) (hinit : c.state = .INIT → c.tmpBuf = [])
    : Emitted C eCtx (plain ++ c.header ++ c.takes buf) (accepted ++ sends.flatten) c₁ := by
  cases h with
  | intro sends c₁ c₂ opened staged le =>
    have he := staged.emitted (opened.emitted he hinit)
    rw [takes, opened.tmpBuf, ← takes] at he
    simpa using emitted_flushed he le

theorem Written.state_ne {ws : List (List WriteRes)} {n : Nat} (h : Written C buf ws c n sends c₁)
    : c₁.state ≠ .INIT := by
  cases h with
  | intro sends c₁ c₂ opened staged le =>
    rw [flushed]
    split <;> (rw [staged.state]; exact opened.state_ne)

theorem WriteFailed.emitted (h : WriteFailed C buf c sends c₁)
    (he : Emitted C eCtx plain accepted c) (hinit : c.state = .INIT → c.tmpBuf = [])
    : ∃ plain' ct eCtx', encodeAll C.encrypt eCtx plain' = some (ct, eCtx')
        ∧ accepted ++ sends.flatten <+: ct ∧ plain' <+: plain ++ c.header ++ c.takes buf := by
  cases h with
  | encryptHeader state encrypt =>
    refine ⟨plain, _, _, he.encodeAll, ?_, ?_⟩
    . simp
    . simp
  | writeHeader state h eCtx' encrypt n lt =>
    have hencode := he.encodeAll
    rw [unsent, hinit state, List.drop_nil, List.append_nil] at hencode
    refine ⟨plain ++ [c.addrbufDest], _, _, encodeAll_concat hencode encrypt, ?_, ?_⟩
    . simpa using List.take_prefix n h
    . simp [header, state]
  | encrypt sends c₁ opened tmpBuf encrypt =>
    exact ⟨_, _, _, (opened.emitted he hinit).encodeAll, List.prefix_append _ _,
      List.prefix_append _ _⟩
  | write sends c₁ c₂ opened staged =>
    have he := staged.emitted (opened.emitted he hinit)
    rw [takes, opened.tmpBuf, ← takes] at he
    exact ⟨_, _, _, he.encodeAll, by simp, List.prefix_refl _⟩

end TcpShadowsocks

inductive Stop where
  | TCP_ERR
  | fault (f : Fault)
  deriving DecidableEq

/-- A call of a write handler with a buffer of at most `NET_IOBUF_LEN` bytes. -/
structure WriteCall (κ : Type) where
  buf : List Byte
  length_le : buf.length ≤ NET_IOBUF_LEN
  inp : Inputs κ

/-- A shadowsocks connection together with the buffers its write handler has taken so far. -/
structure Writer (κ : Type) where
  m : Machine κ
  taken : List (List Byte)

def Machine.takes (m : Machine κ) (s : Side) (buf : List Byte) : List (List Byte) :=
  match (m.conn s).proto with
  | .shadowsocks c => c.takes buf
  | _ => []

/-- A call of the write handler. The sequence ends as soon as it does not return a count. -/
def writeCall (E : Env κ) (s : Side) (w : Writer κ) (a : WriteCall κ) : Except Stop (Writer κ) :=
  match tcpShadowsocksConnWrite E s a.buf a.buf.length (w.m.withInp a.inp) with
  | .ok n m => if n = ERR then .error .TCP_ERR else .ok ⟨m, w.taken ++ w.m.takes s a.buf⟩
  | .error f _ => .error (.fault f)

namespace Writer

structure Streaming (E : Env κ) (s : Side) (eCtx : κ) (plain : List (List Byte)) (m : Machine κ)
    (c : TcpShadowsocks κ) : Prop where
  alive : m.Alive
  usable : m.Usable s
  proto : (m.conn s).proto = .shadowsocks c
  init : c.state = .INIT → c.tmpBuf = []
  emitted : Emitted E.crypto eCtx plain (Io.accepted s m.trace) c

variable {E : Env κ} {s : Side} {eCtx : κ} {plain : List (List Byte)} {m m' : Machine κ}
  {c c' : TcpShadowsocks κ}

structure Unwritten (s : Side) (m m' : Machine κ) (c c' : TcpShadowsocks κ) : Prop where
  alive : m'.Alive ↔ m.Alive
  usable : m'.Usable s ↔ m.Usable s
  proto : (m'.conn s).proto = .shadowsocks c'
  accepted : Io.accepted s m'.trace = Io.accepted s m.trace
  tmpBuf : c'.tmpBuf = c.tmpBuf
  tmpBufOff : c'.tmpBufOff = c.tmpBufOff
  eCtx : c'.eCtx = c.eCtx
  state : c'.state = .INIT → c.state = .INIT

theorem Streaming.unwritten (h : Streaming E s eCtx plain m c) (hu : Unwritten s m m' c c')
    : Streaming E s eCtx plain m' c' := by
  constructor
  case alive => exact hu.alive.mpr h.alive
  case usable => exact hu.usable.mpr h.usable
  case proto => exact hu.proto
  case init =>
    intro hinit
    rw [hu.tmpBuf]
    exact h.init (hu.state hinit)
  case emitted =>
    constructor
    . rw [hu.accepted, TcpShadowsocks.unsent, hu.tmpBuf, hu.tmpBufOff, hu.eCtx]
      exact h.emitted.encodeAll
    . rw [hu.tmpBuf, hu.tmpBufOff]
      exact h.emitted.tmpBufOff

theorem accepted_sends (s : Side) (sends : List (List Byte))
    : Io.accepted s (sends.map (.send s)) = sends.flatten := by
  induction sends with
  | nil => rfl
  | cons d sends ih => simp [ih, Io.dataOut]

theorem Streaming.written (h : Streaming E s eCtx plain m c) {buf : List Byte} {n : Nat}
    {sends : List (List Byte)} {c' : TcpShadowsocks κ} {ws : List (List WriteRes)}
    (hw : c.Written E.crypto buf ws n sends c') (inp : Inputs κ)
    : Streaming E s eCtx (plain ++ c.header ++ c.takes buf) (m.wrote s c' sends inp) c' := by
  constructor
  case alive => simpa using h.alive
  case usable => simpa using h.usable
  case proto => simp
  case init => exact fun hinit => absurd hinit hw.state_ne
  case emitted =>
    rw [Machine.trace_wrote, Io.accepted_append, accepted_sends]
    exact hw.emitted h.emitted h.init

theorem Streaming.write (h : Streaming E s eCtx plain m c) (buf : List Byte)
    : wp (tcpShadowsocksConnWrite E s buf buf.length)
        (fun n m' => n ≠ ERR → ∃ c', c'.state ≠ .INIT
          ∧ Streaming E s eCtx (plain ++ c.header ++ c.takes buf) m' c')
        (fun _ _ => True) m := by
  apply wp_tcpShadowsocksConnWrite h.alive h.usable h.proto (fun _ _ _ _ _ _ => trivial)
    (.inr fun _ => trivial)
  rw [Int.toNat_natCast, List.take_length]
  constructor
  case failed =>
    intro sends c' inp err hfailed herr hne
    contradiction
  case written =>
    intro n sends c' inp hw _
    exact ⟨c', hw.state_ne, h.written hw inp⟩

def Inv (E : Env κ) (s : Side) (c : TcpShadowsocks κ) (w : Writer κ) : Prop :=
  ∃ c', c'.state ≠ .INIT ∧ Streaming E s c.eCtx (c.header ++ w.taken) w.m c'

theorem Streaming.withInp (h : Streaming E s eCtx plain m c) (inp : Inputs κ)
    : Streaming E s eCtx plain (m.withInp inp) c :=
  ⟨by simpa using h.alive, by simpa using h.usable, h.proto, h.init, h.emitted⟩

theorem writeCall_ok (h : Streaming E s eCtx plain m c) {taken : List (List Byte)}
    {a : WriteCall κ} {w : Writer κ} (hcall : writeCall E s ⟨m, taken⟩ a = .ok w)
    : w.taken = taken ++ c.takes a.buf
      ∧ ∃ c', c'.state ≠ .INIT ∧ Streaming E s eCtx (plain ++ c.header ++ c.takes a.buf) w.m c' := by
  rw [writeCall] at hcall
  split at hcall
  . next n m' heq =>
    split at hcall
    . contradiction
    . next hne =>
      simp only [Except.ok.injEq] at hcall
      rw [← hcall]
      refine ⟨?_, post_of_ok ((h.withInp a.inp).write a.buf) heq hne⟩
      simp [Machine.takes, h.proto]
  . contradiction

theorem writeCall_inv {w w' : Writer κ} {a : WriteCall κ} (h : Inv E s c w)
    (hcall : writeCall E s w a = .ok w')
    : Inv E s c w' := by
  obtain ⟨c₁, hstate, hstream⟩ := h
  obtain ⟨htaken, c₂, hstate₂, hstream₂⟩ := writeCall_ok hstream hcall
  refine ⟨c₂, hstate₂, ?_⟩
  rw [htaken]
  simpa [TcpShadowsocks.header, hstate] using hstream₂

theorem writeCall_first (h : Streaming E s c.eCtx [] m c) {w : Writer κ} {a : WriteCall κ}
    (hcall : writeCall E s ⟨m, []⟩ a = .ok w)
    : Inv E s c w := by
  obtain ⟨htaken, c₁, hstate, hstream⟩ := writeCall_ok h hcall
  refine ⟨c₁, hstate, ?_⟩
  rw [htaken]
  simpa using hstream

end Writer

/--
As long as every call of the write handler has returned a count, the bytes that the socket has
accepted and the ones in `tmp_buf` are the encryptions of the header, if the first call had to send
it, and of the buffers that were taken, in order.
-/
theorem ciphertext_integrity (E : Env κ) (s : Side) (m : Machine κ) (c : TcpShadowsocks κ)
    (hm : m.Alive) (hs : m.Usable s) (hc : (m.conn s).proto = .shadowsocks c)
    (htmpBuf : c.tmpBuf = []) (htmpBufOff : c.tmpBufOff = 0) (htrace : m.trace = [])
    (calls : List (WriteCall κ)) (w : Writer κ)
    (hrun : run (writeCall E s) ⟨m, []⟩ calls = .ok w)
    : ∃ c' ct,
        (w.m.conn s).proto = .shadowsocks c'
          ∧ encodeAll E.crypto.encrypt c.eCtx
              ((if calls = [] then [] else c.header) ++ w.taken) = some (ct, c'.eCtx)
          ∧ Io.accepted s w.m.trace ++ c'.tmpBuf.drop c'.tmpBufOff = ct
          ∧ c'.tmpBufOff ≤ c'.tmpBuf.length := by
  have hstart : Writer.Streaming E s c.eCtx [] m c := by
    refine ⟨hm, hs, hc, fun _ => htmpBuf, ?_, ?_⟩
    . simp [encodeAll, htrace, TcpShadowsocks.unsent, htmpBuf]
    . simp [htmpBufOff]
  cases calls with
  | nil =>
    simp only [run, Except.ok.injEq] at hrun
    rw [← hrun]
    exact ⟨c, _, hc, hstart.emitted.encodeAll, rfl, hstart.emitted.tmpBufOff⟩
  | cons a calls =>
    rw [run] at hrun
    split at hrun
    . next w₁ heq =>
      have hfirst := Writer.writeCall_first hstart heq
      obtain ⟨c', _, hstream⟩ : Writer.Inv E s c w :=
        invariant_run (fun w a w' h _ => Writer.writeCall_inv h) hfirst (along_true _ _ _) hrun
      exact ⟨c', _, hstream.proto, hstream.emitted.encodeAll, rfl, hstream.emitted.tmpBufOff⟩
    . contradiction

/-- A new connection to a destination, as `tcpShadowsocksConnNew` and `...Init` leave it. -/
def TcpShadowsocks.client (addrbufDest : List Byte) (ctx : κ) : TcpShadowsocks κ where
  state := .INIT
  tmpBuf := []
  tmpBufOff := 0
  addrbufDest := addrbufDest
  eCtx := ctx
  dCtx := ctx

/-- The pair of a raw client and a remote that has just been connected. -/
def Machine.client (addrbufDest : List Byte) (ctx : κ) : Machine κ :=
  .pair (.new .raw true 60) (.new (.shadowsocks (.client addrbufDest ctx)) true 60) ctx

theorem ciphertext_integrity_short_write
    : let E := Env.default .xsLocal .stream .text
      let m := Machine.client [1, 127, 0, 0, 1, 0, 80] false
      let calls : List (WriteCall Bool) := [
        ⟨[1, 2, 3], by decide, { Inputs.idle false with writes := [[.count 8], [.count 1]] }⟩,
        ⟨[2, 3], by decide, { Inputs.idle false with writes := [[.count 2]] }⟩,
        ⟨[4], by decide, Inputs.idle false⟩]
      ∃ w c' ct, run (writeCall E .remote) ⟨m, []⟩ calls = .ok w
        ∧ (w.m.conn .remote).proto = .shadowsocks c'
        ∧ encodeAll E.crypto.encrypt false ([[1, 127, 0, 0, 1, 0, 80]] ++ w.taken)
            = some (ct, c'.eCtx)
        ∧ Io.accepted .remote w.m.trace ++ c'.tmpBuf.drop c'.tmpBufOff = ct
        ∧ w.taken = [[1, 2, 3], [4]] := by
  intro E m calls
  have hrun : ∃ w, run (writeCall E .remote) ⟨m, []⟩ calls = .ok w ∧ w.taken = [[1, 2, 3], [4]] :=
    ⟨_, rfl, by decide⟩
  obtain ⟨w, hrun, htaken⟩ := hrun
  obtain ⟨c', ct, hproto, hencode, haccepted, -⟩ := ciphertext_integrity E .remote m
    (.client [1, 127, 0, 0, 1, 0, 80] false) (Machine.alive_pair rfl rfl)
    (Machine.usable_pair rfl rfl _) rfl rfl rfl rfl calls w hrun
  exact ⟨w, c', ct, hrun, hproto, hencode, haccepted, htaken⟩

end Xsocks
