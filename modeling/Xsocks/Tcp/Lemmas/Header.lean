import Xsocks.Tcp.Lemmas.Ciphertext

/-!
This module contains the header of a shadowsocks connection in the client role, under calls of both
its read and its write handler.
-/

namespace Xsocks

open Wp Run Chunks

variable {κ : Type}

inductive HandlerCall (κ : Type) where
  | read (off : Nat) (bufLen : Int) (inp : Inputs κ)
  | write (call : WriteCall κ)

/-- A call of a handler. The sequence ends as soon as the connection has been closed. -/
def handlerCall (E : Env κ) (s : Side) (w : Writer κ) : HandlerCall κ → Except Stop (Writer κ)
  | .write call => writeCall E s w call
  | .read off bufLen inp =>
    match tcpShadowsocksConnRead E s off bufLen (w.m.withInp inp) with
    | .ok n m => if n = ERR then .error .TCP_ERR else .ok ⟨m, w.taken⟩
    | .error f _ => .error (.fault f)

def NoAddress (E : Env κ) (c : TcpShadowsocks κ) (data : List Byte) : Prop :=
  ∀ plaintext, (E.crypto.decrypt c.dCtx data).res = .CRYPTO_OK plaintext
    → parseAddr E.inet plaintext = none

/-- Before anything has been written, the call does not receive an address. -/
def Unanswered (E : Env κ) (s : Side) (w : Writer κ) : HandlerCall κ → Prop
  | .write _ => True
  | .read _ bufLen inp =>
    ∀ c, (w.m.conn s).proto = .shadowsocks c → c.state = .INIT
      → NoAddress E c (netTcpRead bufLen (inp.reads.headD [])).data

namespace Writer

variable {E : Env κ} {s : Side} {eCtx : κ} {plain : List (List Byte)} {m m' : Machine κ}
  {c c' : TcpShadowsocks κ}

structure Kept (E : Env κ) (data : List Byte) (c c' : TcpShadowsocks κ) : Prop where
  init : c.state = .INIT → NoAddress E c data
    → c'.state = .INIT ∧ c'.addrbufDest = c.addrbufDest
  state : c'.state = .INIT → c.state = .INIT

theorem Streaming.parsePost (h : Streaming E s eCtx plain m c) (plaintext : List Byte)
    : ParsePost E s c plaintext
        (fun n m' => n ≠ ERR → ∃ c', Streaming E s eCtx plain m' c'
          ∧ (parseAddr E.inet plaintext = none → c' = c) ∧ (c'.state = .INIT → c.state = .INIT))
        m := by
  unfold ParsePost
  split
  . next hinit =>
    split
    . simp
    . next addr heq =>
      intro addrbufDest _
      refine ⟨{ c with addrbufDest := addrbufDest, state := .HANDSHAKE }, ?_, by simp [heq],
        by simp⟩
      apply h.unwritten
      constructor <;> simp [Machine.setShadowsocks]
  . intro _
    exact ⟨c, h, fun _ => rfl, id⟩

theorem Streaming.read (h : Streaming E s eCtx plain m c) (off : Nat) (bufLen : Int)
    : wp (tcpShadowsocksConnRead E s off bufLen)
        (fun n m' => n ≠ ERR
          → ∃ c', Kept E (m.netRead bufLen).data c c' ∧ Streaming E s eCtx plain m' c')
        (fun _ _ => True) m := by
  rw [wp_tcpShadowsocksConnRead h.alive h.usable h.proto]
  generalize m.netRead bufLen = res
  have hreading : ∀ data, Unwritten s m
      (((m.setShadowsocks s c.reading).received s off data).restarted s) c c.reading := by
    intro data
    constructor <;> simp [Machine.setShadowsocks, Machine.received, Machine.restarted, Io.dataOut]
  have hdecrypted : ∀ data dCtx plaintext, Unwritten s m
      (((((m.setShadowsocks s c.reading).received s off data).restarted s).setShadowsocks s
        { c.reading with dCtx := dCtx }).decrypted s off plaintext) c
          { c.reading with dCtx := dCtx } := by
    intro data dCtx plaintext
    constructor <;> simp [Machine.setShadowsocks, Machine.received, Machine.restarted,
      Machine.decrypted, Io.dataOut]
  dsimp only
  split
  . simp
  . split
    . simp
    . split
      . intro _
        refine ⟨c.reading, ⟨?_, by simp⟩, h.unwritten (hreading _)⟩
        intro hinit _
        rw [TcpShadowsocks.reading_of_INIT hinit]
        exact ⟨hinit, rfl⟩
      . unfold DecryptPost
        split
        . trivial
        . dsimp only
          split
          . next plaintext heq =>
            have hstream := h.unwritten
              (hdecrypted res.data (E.crypto.decrypt c.dCtx res.data).dCtx plaintext)
            apply (hstream.parsePost plaintext).mono
            intro n m' hstream hne
            obtain ⟨c', hstream, hkept, hstate⟩ := hstream hne
            refine ⟨c', ⟨?_, ?_⟩, hstream⟩
            . intro hinit hno
              rw [hkept (hno plaintext heq), TcpShadowsocks.reading_of_INIT hinit]
              exact ⟨hinit, rfl⟩
            . intro hinit
              simpa using hstate hinit
          . simp

/--
Either nothing has been written yet and the header is as it was, or the header and everything that was
taken after it have been sent in this order.
-/
def Headed (E : Env κ) (s : Side) (eCtx : κ) (addrbufDest : List Byte) (w : Writer κ) : Prop :=
  ∃ c, (c.state = .INIT ∧ c.addrbufDest = addrbufDest ∧ w.taken = [] ∧ Streaming E s eCtx [] w.m c)
    ∨ (c.state ≠ .INIT ∧ Streaming E s eCtx (addrbufDest :: w.taken) w.m c)

theorem writeCall_headed {addrbufDest : List Byte} {w w' : Writer κ} {a : WriteCall κ}
    (h : Headed E s eCtx addrbufDest w) (hcall : writeCall E s w a = .ok w')
    : Headed E s eCtx addrbufDest w' := by
  obtain ⟨c, ⟨hstate, haddr, htaken, hstream⟩ | ⟨hstate, hstream⟩⟩ := h
  . obtain ⟨htaken', c', hstate', hstream'⟩ := writeCall_ok hstream hcall
    refine ⟨c', .inr ⟨hstate', ?_⟩⟩
    rw [htaken', htaken]
    simpa [TcpShadowsocks.header, hstate, haddr] using hstream'
  . obtain ⟨htaken', c', hstate', hstream'⟩ := writeCall_ok hstream hcall
    refine ⟨c', .inr ⟨hstate', ?_⟩⟩
    rw [htaken']
    simpa [TcpShadowsocks.header, hstate] using hstream'

theorem handlerCall_headed {addrbufDest : List Byte} {w w' : Writer κ} {a : HandlerCall κ}
    (h : Headed E s eCtx addrbufDest w) (ha : Unanswered E s w a)
    (hcall : handlerCall E s w a = .ok w')
    : Headed E s eCtx addrbufDest w' := by
  cases a with
  | write call => exact writeCall_headed h hcall
  | read off bufLen inp =>
    rw [handlerCall] at hcall
    split at hcall
    . next n m' heq =>
      split at hcall
      . contradiction
      . next hne =>
        simp only [Except.ok.injEq] at hcall
        rw [← hcall]
        obtain ⟨c, ⟨hstate, haddr, htaken, hstream⟩ | ⟨hstate, hstream⟩⟩ := h
        . obtain ⟨c', hkept, hstream'⟩ :=
            post_of_ok ((hstream.withInp inp).read off bufLen) heq hne
          obtain ⟨hstate', haddr'⟩ := hkept.init hstate (ha c hstream.proto hstate)
          exact ⟨c', .inl ⟨hstate', by rw [haddr', haddr], htaken, hstream'⟩⟩
        . obtain ⟨c', hkept, hstream'⟩ :=
            post_of_ok ((hstream.withInp inp).read off bufLen) heq hne
          exact ⟨c', .inr ⟨fun hinit => hstate (hkept.state hinit), hstream'⟩⟩
    . contradiction

end Writer

/--
A connection in the client role: `tcpShadowsocksConnNew` has set it up and `tcpShadowsocksConnInit`
has given it the destination `host` and `port`.
-/
structure ClientRole (E : Env κ) (m : Machine κ) (s : Side) (host : CString) (port : Nat)
    (c : TcpShadowsocks κ) : Prop where
  alive : m.Alive
  usable : m.Usable s
  trace : m.trace = []
  proto : (m.conn s).proto = .shadowsocks c
  state : c.state = .INIT
  tmpBuf : c.tmpBuf = []
  tmpBufOff : c.tmpBufOff = 0
  addrbufDest : ∃ uninit, socks5AddrInit E.inet uninit host port = some c.addrbufDest

/--
The peer of a connection in the client role gets the destination first, once and unchanged, and then
the data, unless the connection receives an address before anything has been written to it.
-/
theorem header_first (E : Env κ) (s : Side) (m : Machine κ) (host : CString) (port : Nat)
    (c : TcpShadowsocks κ) (hm : ClientRole E m s host port c) (recover : List Byte → List Byte)
    (hrecover : Recovers E.crypto.encrypt c.eCtx recover) (calls : List (HandlerCall κ))
    (hcalls : Along (handlerCall E s) (Unanswered E s) ⟨m, []⟩ calls) (w : Writer κ)
    (hrun : run (handlerCall E s) ⟨m, []⟩ calls = .ok w)
    : recover (Io.accepted s w.m.trace) <+: c.addrbufDest ++ w.taken.flatten := by
  have hstart : Writer.Headed E s c.eCtx c.addrbufDest ⟨m, []⟩ := by
    refine ⟨c, .inl ⟨hm.state, rfl, rfl, hm.alive, hm.usable, hm.proto, fun _ => hm.tmpBuf, ?_, ?_⟩⟩
    . simp [encodeAll, hm.trace, TcpShadowsocks.unsent, hm.tmpBuf]
    . simp [hm.tmpBufOff]
  obtain ⟨c', ⟨_, _, htaken, hstream⟩ | ⟨_, hstream⟩⟩ :=
    invariant_run (fun _ _ _ h ha => Writer.handlerCall_headed h ha) hstart hcalls hrun
  . have := hrecover.prefix_flatten hstream.emitted.encodeAll (List.prefix_append _ _)
    rw [List.flatten_nil, List.prefix_nil] at this
    rw [this]
    exact List.nil_prefix
  . simpa using hrecover.prefix_flatten hstream.emitted.encodeAll (List.prefix_append _ _)

theorem clientRole_client
    : ClientRole (.default .xsLocal .copy .text) (.client [1, 127, 0, 0, 1, 0, 80] ()) .remote
        localhost 80 (.client [1, 127, 0, 0, 1, 0, 80] ()) where
  alive := Machine.alive_pair rfl rfl
  usable := Machine.usable_pair rfl rfl _
  trace := rfl
  proto := rfl
  state := rfl
  tmpBuf := rfl
  tmpBufOff := rfl
  addrbufDest := ⟨.zero, by decide⟩

theorem header_first_short_write
    : let E := Env.default .xsLocal .copy .text
      let calls : List (HandlerCall Unit) := [
        .read 0 NET_IOBUF_LEN (Inputs.idle ()),
        .write ⟨[1, 2, 3], by decide, { Inputs.idle () with writes := [[.count 7], [.count 1]] }⟩,
        .write ⟨[2, 3], by decide, { Inputs.idle () with writes := [[.count 1]] }⟩]
      ∃ w, run (handlerCall E .remote) ⟨.client [1, 127, 0, 0, 1, 0, 80] (), []⟩ calls = .ok w
        ∧ Io.accepted .remote w.m.trace <+: [1, 127, 0, 0, 1, 0, 80] ++ w.taken.flatten := by
  intro E calls
  have hcalls : Along (handlerCall E .remote) (Unanswered E .remote)
      ⟨.client [1, 127, 0, 0, 1, 0, 80] (), []⟩ calls := by
    refine ⟨?_, fun _ _ => ⟨trivial, fun _ _ => ⟨trivial, fun _ _ => trivial⟩⟩⟩
    intro c _ _ plaintext hplaintext
    cases hplaintext
    decide
  obtain ⟨w, hrun⟩ : ∃ w, run (handlerCall E .remote)
      ⟨.client [1, 127, 0, 0, 1, 0, 80] (), []⟩ calls = .ok w := ⟨_, rfl⟩
  exact ⟨w, hrun, header_first E .remote _ localhost 80 _ clientRole_client id Crypto.recovers_copy
    calls hcalls w hrun⟩

/--
A peer that sends an address before it has got one: the header is never sent.
-/
theorem header_suppressed
    : let E := Env.default .xsLocal .copy .text
      ClientRole E (.client [1, 127, 0, 0, 1, 0, 80] ()) .remote localhost 80
          (.client [1, 127, 0, 0, 1, 0, 80] ())
        ∧ Recovers E.crypto.encrypt () id
        ∧ ∃ w, run (handlerCall E .remote) ⟨.client [1, 127, 0, 0, 1, 0, 80] (), []⟩ [
            .read 0 NET_IOBUF_LEN
              { Inputs.idle () with reads := [[.data [1, 8, 8, 8, 8, 0, 53]]] },
            .write ⟨[9], by decide, { Inputs.idle () with writes := [[.count 1]] }⟩
          ] = .ok w
          ∧ ¬id (Io.accepted .remote w.m.trace) <+: [1, 127, 0, 0, 1, 0, 80] ++ w.taken.flatten := by
  intro E
  refine ⟨clientRole_client, Crypto.recovers_copy, _, rfl, ?_⟩
  decide

end Xsocks
