import Xsocks.Protocol.Lemmas.Cipher
import Xsocks.Tcp.Lemmas.EncryptedRelay
import Xsocks.Tcp.Lemmas.Frame

/-!
This module contains the room that `tcpShadowsocksConnRead` needs in the buffer it is given. The ciphers
hold back bytes of earlier reads, so a call can give back more than it has received.
-/

namespace Xsocks

open Chunks Wp Run

section

variable {κ : Type}

/-- Decrypting the bytes `x`, in any number of calls none of which fails, has led from `dCtx` to `dCtx'`. -/
inductive Decrypts (C : Crypto κ) (dCtx : κ) : List Byte → κ → Prop where
  | nil : Decrypts C dCtx [] dCtx
  | append {x data plaintext : List Byte} {dCtx' : κ} (before : Decrypts C dCtx x dCtx')
      (res : (C.decrypt dCtx' data).res = .CRYPTO_OK plaintext)
      : Decrypts C dCtx (x ++ data) (C.decrypt dCtx' data).dCtx

/-- A call of `tcpShadowsocksConnRead` on the buffer `rbuf + off`. -/
structure ReadCall (κ : Type) where
  off : Nat
  bufLen : Nat
  inp : Inputs κ

def readCall (E : Env κ) (s : Side) (m : Machine κ) (a : ReadCall κ) : Except Fault (Machine κ) :=
  if (m.conn s).live then exec (tcpShadowsocksConnRead E s a.off a.bufLen) (m.withInp a.inp) else .ok m

/-- The call returns, which means that it has not enlarged the buffer, and not more than fits into it. -/
def ReadFits (E : Env κ) (s : Side) (m : Machine κ) (a : ReadCall κ) : Prop :=
  (m.conn s).live = true → ∃ nread m',
    tcpShadowsocksConnRead E s a.off a.bufLen (m.withInp a.inp) = .ok nread m' ∧ nread ≤ a.bufLen

def arriving (bufLen : Int) (inp : Inputs κ) : List Byte :=
  (netTcpRead bufLen (inp.reads.headD [])).data

def Continues (ct : List Byte) (s : Side) (m : Machine κ) (bufLen : Int) (inp : Inputs κ) : Prop :=
  Io.received s m.trace ++ arriving bufLen inp <+: ct

def OnCall (s : Side) (P : Machine κ → Int → Inputs κ → Prop) (m : Machine κ) (a : ReadCall κ) : Prop :=
  (m.conn s).live = true → P m a.bufLen a.inp

def OnPipeRead (src : Side) (P : Machine κ → Int → Inputs κ → Prop) (m : Machine κ)
    : PipeEvent × Inputs κ → Prop
  | (.readable s, inp) =>
    s = src → (m.conn src).re = true → P m ((m.conn src).rbufLen - (m.conn src).rbufOff) inp
  | (.writable _, _) => True

/-- The read that `tcpPipe` makes fits, and at the end of the event the offset is within the buffer. -/
structure PipeFits (E : Env κ) (src : Side) (m : Machine κ) (a : PipeEvent × Inputs κ) : Prop where
  read : OnPipeRead src (fun m bufLen inp => ReadFits E src (m.piping src src.other)
    ⟨(m.conn src).rbufOff, bufLen.toNat, inp⟩) m a
  room : ((pipeLeaves E (.one src) m a).conn src).rbufOff ≤ ((pipeLeaves E (.one src) m a).conn src).rbufLen

instance (ct : List Byte) (s : Side) (m : Machine κ) (bufLen : Int) (inp : Inputs κ)
    : Decidable (Continues ct s m bufLen inp) :=
  inferInstanceAs (Decidable (_ <+: _))

instance (s : Side) (P : Machine κ → Int → Inputs κ → Prop) [∀ m bufLen inp, Decidable (P m bufLen inp)]
    (m : Machine κ) (a : ReadCall κ) : Decidable (OnCall s P m a) :=
  inferInstanceAs (Decidable (_ → _))

instance (src : Side) (P : Machine κ → Int → Inputs κ → Prop) [∀ m bufLen inp, Decidable (P m bufLen inp)]
    (m : Machine κ) (a : PipeEvent × Inputs κ) : Decidable (OnPipeRead src P m a) :=
  match a with
  | (.readable _, _) => inferInstanceAs (Decidable (_ → _ → _))
  | (.writable _, _) => .isTrue trivial

end

variable {ε : Type}

/-- There is room for what the bytes that arrive are decrypted to. -/
def HasRoom (K : Cipher ε) (ps : List (List Byte)) (s : Side) (m : Machine (CipherCtx ε)) (bufLen : Int)
    (inp : Inputs (CipherCtx ε)) : Prop :=
  arriving bufLen inp ≠ []
    → K.Room ps (Io.received s m.trace).length (arriving bufLen inp).length bufLen.toNat

instance (K : Cipher ε) (ps : List (List Byte)) (s : Side) (m : Machine (CipherCtx ε)) (bufLen : Int)
    (inp : Inputs (CipherCtx ε)) : Decidable (HasRoom K ps s m bufLen inp) :=
  inferInstanceAs (Decidable (_ → _))

/-- A connection that has decrypted without an error what it has received so far of the stream `ct`. -/
structure DecryptStart (K : Cipher ε) (ct : List Byte) (m : Machine (CipherCtx ε)) (s : Side) : Prop where
  alive : m.Alive
  usable : m.Usable s
  received : Io.received s m.trace <+: ct
  decrypts : ∃ c dCtx, (m.conn s).proto = .shadowsocks c ∧ dCtx.init = 0 ∧ dCtx.chunk = []
    ∧ Decrypts (cryptoInit K) dCtx (Io.received s m.trace) c.dCtx

structure PipeReady (m : Machine (CipherCtx ε)) (src : Side) : Prop where
  usable : m.Usable src.other
  connected : (m.conn src.other).connected = true
  owned : m.Owned src src.other
  room : (m.conn src).rbufOff ≤ (m.conn src).rbufLen

structure Machine.Decrypting (K : Cipher ε) (ps : List (List Byte)) (ct : List Byte) (s : Side)
    (m : Machine (CipherCtx ε)) : Prop where
  alive : m.Alive
  usable : m.Usable s
  synced : ∃ c, (m.conn s).proto = .shadowsocks c ∧ K.Synced ps ct (Io.received s m.trace) c.dCtx

inductive Machine.Roomy (K : Cipher ε) (ps : List (List Byte)) (ct : List Byte) (src : Side)
    (m : Machine (CipherCtx ε)) : Prop where
  | running (decrypting : m.Decrypting K ps ct src) (ready : PipeReady m src)
  | ended (re : (m.conn src).re = false) (we : (m.conn src.other).we = false)
      (room : (m.conn src).rbufOff ≤ (m.conn src).rbufLen)

section

variable {K : Cipher ε} {ps : List (List Byte)} {ct : List Byte} {s : Side}
  {m : Machine (CipherCtx ε)} {E : Env (CipherCtx ε)}

theorem Decrypts.synced (hct : K.Sends ps ct) {dCtx dCtx' : CipherCtx ε} {x : List Byte}
    (h : Decrypts (cryptoInit K) dCtx x dCtx') (hinit : dCtx.init = 0) (hchunk : dCtx.chunk = [])
    (hx : x <+: ct)
    : K.Synced ps ct x dCtx' := by
  induction h with
  | nil => exact hct.synced hinit hchunk
  | append before res ih =>
    next x data plaintext dCtx' =>
    obtain ⟨bufLen, hle, hroom⟩ := K.exists_room ps x.length data.length
    have hsynced := ih ((List.prefix_append x data).trans hx)
    exact ((hsynced.decrypt hx hle hroom).2 plaintext res).2

theorem DecryptStart.decrypting (h : DecryptStart K ct m s) (hct : K.Sends ps ct)
    : m.Decrypting K ps ct s := by
  obtain ⟨c, dCtx, hproto, hinit, hchunk, hdecrypts⟩ := h.decrypts
  exact ⟨h.alive, h.usable, c, hproto, hdecrypts.synced hct hinit hchunk h.received⟩

theorem wp_tcpShadowsocksConnRead_room (hE : E.crypto = cryptoInit K) (h : m.Decrypting K ps ct s)
    {off bufLen : Nat} (hcontinues : Continues ct s m bufLen m.inp)
    (hroom : HasRoom K ps s m bufLen m.inp)
    : wp (tcpShadowsocksConnRead E s off bufLen)
        (fun nread m' => nread ≤ bufLen ∧ (nread = ERR → (m'.conn s).live = false)
          ∧ (nread ≠ ERR → m'.Decrypting K ps ct s))
        (fun _ _ => False) m := by
  obtain ⟨c, hc, hsynced⟩ := h.synced
  have halive := h.alive
  have hs := h.usable
  have hclosed : ∀ m' : Machine (CipherCtx ε), m'.Usable s → ERR ≤ bufLen
      ∧ (ERR = ERR → ((m'.closed s).conn s).live = false)
      ∧ (ERR ≠ ERR → (m'.closed s).Decrypting K ps ct s) := by
    intro m' hm'
    refine ⟨by rw [ERR]; omega, fun _ => ?_, fun hne => absurd rfl hne⟩
    rw [Machine.conn_closed hm', TcpConn.close]
  rw [wp_tcpShadowsocksConnRead halive hs hc]
  dsimp only
  rcases netTcpRead_cases bufLen (m.inp.reads.headD []) with heq | heq | heq | heq
  . rw [Machine.netRead, heq, if_pos rfl]
    exact hclosed _ (by simpa using hs)
  . rw [Machine.netRead, heq, if_neg (by simp [ERR]), if_pos (by simp)]
    exact hclosed _ (by simpa using hs)
  . rw [Machine.netRead, heq, if_neg (by simp [ERR]), if_neg (by simp), if_pos (by simp)]
    dsimp only
    refine ⟨by omega, by simp [ERR], fun _ => ⟨by simpa using halive, by simpa using hs, c.reading, ?_, ?_⟩⟩
    . simp
    . simpa [Machine.restarted, Machine.received, Machine.setShadowsocks, Io.dataIn] using hsynced
  . obtain ⟨data, hne, hle, heq⟩ := heq
    have hpos : 0 < data.length := List.length_pos_iff.mpr hne
    rw [Continues, arriving, heq] at hcontinues
    rw [HasRoom, arriving, heq] at hroom
    rw [Int.toNat_natCast] at hroom hle
    dsimp only at hcontinues hroom
    have hroom := hroom hne
    obtain ⟨hdemand, hok⟩ := hsynced.decrypt hcontinues hle hroom
    rw [Machine.netRead, heq]
    dsimp only
    rw [if_neg (by rw [ERR]; omega), if_neg (by simp), if_neg (by omega), hE, DecryptPost,
      if_neg (by omega)]
    cases hres : ((cryptoInit K).decrypt c.dCtx data).res with
    | CRYPTO_NEED_MORE => exact hclosed _ (by simpa using hs)
    | CRYPTO_ERROR => exact hclosed _ (by simpa using hs)
    | CRYPTO_OK plaintext =>
      obtain ⟨hlength, hsynced'⟩ := hok plaintext hres
      dsimp only
      rw [ParsePost]
      split
      . cases parseAddr E.inet plaintext with
        | none => exact hclosed _ (by simpa using hs)
        | some addr =>
          refine ⟨by omega, fun heq => by rw [ERR] at heq; omega, fun _ => ?_⟩
          refine ⟨by simpa using halive, by simpa using hs, _, Machine.proto_setShadowsocks _, ?_⟩
          simpa [Machine.restarted, Machine.received, Machine.setShadowsocks, Machine.decrypted,
            Io.dataIn] using hsynced'
      . refine ⟨by omega, fun heq => by rw [ERR] at heq; omega, fun _ => ?_⟩
        refine ⟨by simpa using halive, by simpa using hs,
          { c.reading with dCtx := ((cryptoInit K).decrypt c.dCtx data).dCtx }, ?_, ?_⟩
        . rw [Machine.proto_decrypted, Machine.proto_setShadowsocks]
        . simpa [Machine.restarted, Machine.received, Machine.setShadowsocks, Machine.decrypted,
            Io.dataIn] using hsynced'

theorem Machine.Decrypting.congr {m' : Machine (CipherCtx ε)} (h : m.Decrypting K ps ct s)
    (halive : m'.Alive) (husable : m'.Usable s) (hproto : (m'.conn s).proto = (m.conn s).proto)
    (hreceived : Io.received s m'.trace = Io.received s m.trace)
    : m'.Decrypting K ps ct s := by
  obtain ⟨c, hc, hsynced⟩ := h.synced
  refine ⟨halive, husable, c, ?_, ?_⟩
  . rw [hproto, hc]
  . rw [hreceived]
    exact hsynced

theorem Machine.Decrypting.withInp (h : m.Decrypting K ps ct s) (inp : Inputs (CipherCtx ε))
    : (m.withInp inp).Decrypting K ps ct s :=
  h.congr (by simpa using h.alive) (by simpa using h.usable) rfl rfl

theorem readCall_room (hE : E.crypto = cryptoInit K)
    (h : (m.conn s).live = true → m.Decrypting K ps ct s) {a : ReadCall (CipherCtx ε)}
    (hcontinues : OnCall s (Continues ct s) m a) (hroom : OnCall s (HasRoom K ps s) m a)
    : ReadFits E s m a
        ∧ ∀ m', readCall E s m a = .ok m' → (m'.conn s).live = true → m'.Decrypting K ps ct s := by
  unfold readCall
  by_cases hlive : (m.conn s).live = true
  . have hwp : wp (tcpShadowsocksConnRead E s a.off a.bufLen) _ _ (m.withInp a.inp) :=
      wp_tcpShadowsocksConnRead_room hE ((h hlive).withInp _) (hcontinues hlive) (hroom hlive)
    obtain ⟨nread, m', heq, hle, herr, hok⟩ := exists_ok_of_wp hwp
    refine ⟨fun _ => ⟨nread, m', heq, hle⟩, ?_⟩
    intro m'' hm'' hlive''
    rw [if_pos hlive, exec, heq, Except.ok.injEq] at hm''
    subst hm''
    apply hok
    intro hERR
    rw [herr hERR] at hlive''
    contradiction
  . refine ⟨fun h => absurd h hlive, ?_⟩
    intro m' hm' hlive'
    rw [if_neg hlive, Except.ok.injEq] at hm'
    subst hm'
    exact h hlive'

-- The handlers of one connection leave what the other one has received as it is.
theorem received_of_on {s t : Side} (hne : t ≠ s) {ios : List Io} (h : ∀ io ∈ ios, io.On t)
    : Io.received s ios = [] := by
  induction ios with
  | nil => exact Io.received_nil s
  | cons io ios ih =>
    rw [Io.received_cons, ih fun io hio => h io (List.mem_cons_of_mem _ hio), List.append_nil]
    have hon := h io List.mem_cons_self
    cases io with
    | recv c data =>
      rw [Io.On] at hon
      rw [Io.dataIn, if_neg (by rw [hon]; exact hne)]
    | _ => rfl

theorem Machine.Decrypting.framed {t : Side} {m' : Machine (CipherCtx ε)} (h : m.Decrypting K ps ct s)
    (hne : t ≠ s) (hframed : m.Framed t m')
    : m'.Decrypting K ps ct s := by
  obtain ⟨ios, htrace, hios⟩ := hframed.trace
  apply h.congr (hframed.alive h.alive) (hframed.usable h.usable)
  . rw [hframed.other s hne.symm]
  . rw [htrace, Io.received_append, received_of_on hne hios, List.append_nil]

section

variable {src : Side} {m' : Machine (CipherCtx ε)}

theorem Side.other_ne (s : Side) : s.other ≠ s := by
  cases s <;> simp [Side.other]

theorem Machine.Roomy.room (h : m.Roomy K ps ct src) : (m.conn src).rbufOff ≤ (m.conn src).rbufLen := by
  cases h with
  | running decrypting ready => exact ready.room
  | ended re we room => exact room

theorem PipeReady.congr (h : PipeReady m src) (husable : m'.Usable src.other)
    (hconnected : (m'.conn src.other).connected = (m.conn src.other).connected) (howned : m'.Owned src src.other)
    (hrbufOff : (m'.conn src).rbufOff = (m.conn src).rbufOff)
    (hrbufLen : (m'.conn src).rbufLen = (m.conn src).rbufLen)
    : PipeReady m' src := by
  refine ⟨husable, ?_, howned, ?_⟩
  . rw [hconnected, h.connected]
  . rw [hrbufOff, hrbufLen]
    exact h.room

-- Neither connection's own handlers move the offset of the buffer.
theorem Machine.Framed.room {t : Side} (h : m.Framed t m') (hroom : (m.conn src).rbufOff ≤ (m.conn src).rbufLen)
    : (m'.conn src).rbufOff ≤ (m'.conn src).rbufLen := by
  rw [(h.kept src).rbufOff, (h.kept src).rbufLen]
  exact hroom

theorem PipeReady.framed {t : Side} (h : PipeReady m src) (hframed : m.Framed t m') : PipeReady m' src := by
  have hkept := hframed.kept src.other
  refine ⟨hframed.usable h.usable, ?_, ?_, hframed.room h.room⟩
  . rw [hkept.connected, h.connected]
  . apply h.owned.congr
    rw [hkept.eq]
    exact ⟨rfl, rfl, rfl, rfl⟩

theorem Machine.Shut.roomy {t : Side} (h : m.Shut t m') (hsrc : m.Usable src) (hready : PipeReady m src)
    : m'.Roomy K ps ct src := by
  obtain ⟨m'', hframed, rfl⟩ := h
  apply Machine.Roomy.ended
  . rw [Machine.conn_closed (hframed.usable hsrc), TcpConn.close]
  . rw [Machine.conn_closed (hframed.usable hready.usable), TcpConn.close]
  . rw [Machine.conn_closed (hframed.usable hsrc), TcpConn.close]
    exact hframed.room hready.room

theorem PipeReady.piping (h : PipeReady m src) : PipeReady (m.piping src src.other) src := by
  apply h.congr
  . simpa using h.usable
  . simp [Machine.piping]
  . exact h.owned.piping
  all_goals simp [Machine.piping, src.other_ne.symm]

theorem PipeReady.filled (h : PipeReady m src) {n : Nat}
    (hn : (n : Int) ≤ (m.conn src).rbufLen - (m.conn src).rbufOff)
    : PipeReady (m.filled src src.other n) src := by
  refine ⟨by simpa using h.usable, ?_, h.owned.filled n, ?_⟩
  . simp [Machine.filled, src.other_ne, h.connected]
  . have hoff : ((m.filled src src.other n).conn src).rbufOff = (m.conn src).rbufOff + n := by
      simp [Machine.filled, src.other_ne.symm]
    have hlen : ((m.filled src src.other n).conn src).rbufLen = (m.conn src).rbufLen := by
      simp [Machine.filled, src.other_ne.symm]
    rw [hoff, hlen]
    omega

theorem PipeReady.piped (h : PipeReady m src) (hwbuf_ne : (m.conn src.other).wbuf ≠ none) (n : Int)
    : PipeReady (m.piped src src.other n) src := by
  have hroom := h.room
  refine ⟨?_, ?_, h.owned.piped hwbuf_ne n, ?_⟩
  . unfold Machine.piped
    dsimp only
    split <;> simpa using h.usable
  . unfold Machine.piped
    dsimp only
    split
    . simp [Machine.suspended, Machine.advanced, TcpConn.advance, src.other_ne, h.connected]
    . simp [Machine.released, Machine.advanced, TcpConn.advance, src.other_ne, h.connected]
  . unfold Machine.piped
    dsimp only
    split
    . simpa [Machine.suspended, Machine.advanced, TcpConn.advance, src.other_ne.symm] using hroom
    . have hlen : 0 ≤ (m.conn src).rbufLen := by omega
      simpa [Machine.released, Machine.advanced, TcpConn.advance, src.other_ne.symm] using hlen

theorem PipeReady.resumed (h : PipeReady m src) : PipeReady (m.resumed src src.other) src := by
  have hroom := h.room
  refine ⟨by simpa using h.usable, ?_, h.owned.resumed, ?_⟩
  . simp [Machine.resumed, src.other_ne, h.connected]
  . have hlen : 0 ≤ (m.conn src).rbufLen := by omega
    simpa [Machine.resumed, src.other_ne.symm] using hlen

theorem PipeReady.pipeWritten (h : PipeReady m src) (hwbuf_ne : (m.conn src.other).wbuf ≠ none) (n : Nat)
    : PipeReady (m.pipeWritten src.other n) src := by
  have howned := h.owned.pipeWritten hwbuf_ne n
  rw [Machine.pipeWritten_eq] at howned ⊢
  apply h.congr _ _ howned
  all_goals simp [Machine.advanced, TcpConn.advance, src.other_ne.symm, h.usable]

theorem Machine.Decrypting.piping (h : m.Decrypting K ps ct src)
    : (m.piping src src.other).Decrypting K ps ct src := by
  apply h.congr (by simpa using h.alive) (by simpa using h.usable)
  . simp [Machine.piping, src.other_ne.symm]
  . simp [Machine.piping, Io.dataIn]

theorem Machine.Decrypting.filled (h : m.Decrypting K ps ct src) (n : Nat)
    : (m.filled src src.other n).Decrypting K ps ct src := by
  apply h.congr (by simpa using h.alive) (by simpa using h.usable)
  . simp [Machine.filled, src.other_ne.symm]
  . simp [Machine.filled]

theorem Machine.Decrypting.piped (h : m.Decrypting K ps ct src) (n : Int)
    : (m.piped src src.other n).Decrypting K ps ct src := by
  apply h.congr
  . unfold Machine.piped
    dsimp only
    split <;> simpa using h.alive
  . unfold Machine.piped
    dsimp only
    split <;> simpa using h.usable
  . unfold Machine.piped
    dsimp only
    split
    . simp [Machine.suspended, Machine.advanced, TcpConn.advance, src.other_ne.symm]
    . simp [Machine.released, Machine.advanced, TcpConn.advance, src.other_ne.symm]
  . rw [Machine.trace_piped]

theorem received_piping : Io.received src (m.piping src src.other).trace = Io.received src m.trace := by
  simp [Machine.piping, Io.dataIn]

theorem wp_connRead_room (hE : E.crypto = cryptoInit K) (h : m.Decrypting K ps ct src) {off : Nat}
    {bufLen : Int} (hnonneg : 0 ≤ bufLen) (hcontinues : Continues ct src m bufLen m.inp)
    (hroom : HasRoom K ps src m bufLen m.inp)
    : wp (connRead E src off bufLen)
        (fun nread m' => nread ≤ bufLen ∧ (nread = ERR → m.Shut src m')
          ∧ (nread ≠ ERR → 0 ≤ nread ∧ m.Framed src m' ∧ m'.Decrypting K ps ct src))
        (fun _ _ => False) m := by
  obtain ⟨c, hc, -⟩ := h.synced
  rw [connRead, wp_bind, wp_deref h.usable, hc]
  dsimp only
  obtain ⟨n, rfl⟩ := Int.eq_ofNat_of_zero_le hnonneg
  have hreplies : wp (tcpShadowsocksConnRead E src off n) (Replied m src) _ m :=
    replies_tcpShadowsocksConnRead h.alive m Machine.framed_refl
  apply wp_mono (wp_and (wp_tcpShadowsocksConnRead_room hE h hcontinues hroom) hreplies)
  . rintro nread m' ⟨⟨hle, _, hok⟩, hreplied⟩
    refine ⟨hle, ?_, ?_⟩
    . rintro rfl
      exact hreplied.shut
    . intro hne
      obtain ⟨hpos, hframed⟩ := hreplied.framed hne
      exact ⟨hpos, hframed, hok hne⟩
  . intro f m' hf
    exact hf.1

theorem tcpPipe_room (hE : E.crypto = cryptoInit K) (h : m.Decrypting K ps ct src) (hready : PipeReady m src)
    (hcontinues : Continues ct src m ((m.conn src).rbufLen - (m.conn src).rbufOff) m.inp)
    (hroom : HasRoom K ps src m ((m.conn src).rbufLen - (m.conn src).rbufOff) m.inp)
    : wp (tcpPipe E src src.other) (fun _ m' => m'.Roomy K ps ct src)
        (fun _ m' => (m'.conn src).rbufOff ≤ (m'.conn src).rbufLen) m := by
  have hpiping := h.piping
  have hready' := hready.piping
  have hnonneg : 0 ≤ (m.conn src).rbufLen - (m.conn src).rbufOff := by
    have := hready.room
    omega
  have hconn : ((m.piping src src.other).conn src).rbufOff = (m.conn src).rbufOff
      ∧ ((m.piping src src.other).conn src).rbufLen = (m.conn src).rbufLen := by
    simp [Machine.piping, src.other_ne.symm]
  rw [Continues, ← received_piping] at hcontinues
  rw [HasRoom, ← received_piping] at hroom
  apply wp_tcpPipe_of_connRead h.usable hready.usable
  apply wp_mono (wp_connRead_room hE hpiping hnonneg hcontinues hroom)
  . rintro nread m' ⟨hle, hshut, hok⟩
    constructor
    . intro hnonpos
      by_cases herr : nread = ERR
      . exact (hshut herr).roomy hpiping.usable hready'
      . obtain ⟨-, hframed, hdecrypting⟩ := hok herr
        exact .running hdecrypting (hready'.framed hframed)
    . intro hpos
      obtain ⟨-, hframed, hdecrypting⟩ := hok (by rw [ERR]; omega)
      have hready₁ := hready'.framed hframed
      refine ⟨hdecrypting.usable, hready₁.usable, ?_, ?_⟩
      . intro p hp
        rw [hready₁.owned.wbuf p hp]
        exact hdecrypting.usable
      -- The bytes that have been read are within the buffer.
      have hkept := hframed.kept src
      have hready₂ : PipeReady (m'.filled src src.other nread.toNat) src := by
        apply hready₁.filled
        rw [hkept.rbufLen, hkept.rbufOff, hconn.1, hconn.2]
        omega
      have hdecrypting₂ := hdecrypting.filled nread.toNat
      have hwbuf_ne : ((m'.filled src src.other nread.toNat).conn src.other).wbuf ≠ none := by
        simp [Machine.wbuf_filled]
      apply wp_mono (replies_connWrite hdecrypting₂.alive _ Machine.framed_refl)
      . intro nwrite m'' hreplied
        constructor
        . rintro rfl
          exact hreplied.shut.roomy hdecrypting₂.usable hready₂
        . intro hne
          obtain ⟨-, hframed⟩ := hreplied.framed hne
          have hdecrypting₃ := hdecrypting₂.framed src.other_ne hframed
          have hready₃ := hready₂.framed hframed
          refine ⟨hdecrypting₃.usable, hready₃.usable, ?_⟩
          apply Machine.Roomy.running (hdecrypting₃.piped nwrite)
          apply hready₃.piped
          rw [(hframed.kept src.other).eq]
          exact hwbuf_ne
      . intro f m'' hhalted
        exact hhalted.2.room hready₂.room
  . intro f m' hf
    exact hf.elim

theorem tcpConnWriteHandler_room (h : m.Decrypting K ps ct src) (hready : PipeReady m src)
    : wp (tcpConnWriteHandler E src.other) (fun _ m' => m'.Roomy K ps ct src)
        (fun _ m' => (m'.conn src).rbufOff ≤ (m'.conn src).rbufLen) m := by
  have hdst := hready.usable
  simp only [tcpConnWriteHandler, handleTcpConnection, wp_bind, wp_deref hdst, hready.connected,
    ↓reduceIte, wp_pure, ne_eq, not_true_eq_false]
  split
  . next hpiped =>
    rw [wp_bind]
    apply wp_tcpPipeWrite hdst (hready.owned.pipe hpiped) h.usable
    case hwbuf =>
      intro hne
      obtain ⟨p, hp⟩ := Option.ne_none_iff_exists'.mp (hready.owned.wbuf_ne hne)
      refine ⟨p, hp, ?_⟩
      rw [hready.owned.wbuf p hp]
      exact h.usable
    case hdone =>
      intro _
      apply Machine.Roomy.running _ hready.resumed
      apply h.congr (by simpa using h.alive) (by simpa using h.usable)
      . simp [Machine.resumed, src.other_ne.symm]
      . simp [Machine.resumed]
    case hwrite =>
      intro hne
      have hwbuf_ne := hready.owned.wbuf_ne hne
      apply wp_mono (replies_connWrite h.alive _ Machine.framed_refl)
      . intro nwrite m' hreplied
        constructor
        . rintro rfl
          exact hreplied.shut.roomy h.usable hready
        . intro hne
          obtain ⟨hnonneg, hframed⟩ := hreplied.framed hne
          obtain ⟨n, rfl⟩ := Int.eq_ofNat_of_zero_le hnonneg
          have hdecrypting := h.framed src.other_ne hframed
          have hready₁ := hready.framed hframed
          have hwbuf_ne₁ : (m'.conn src.other).wbuf ≠ none := by
            rw [(hframed.kept src.other).eq]
            exact hwbuf_ne
          refine ⟨hready₁.usable, .running ?_ (hready₁.pipeWritten hwbuf_ne₁ n)⟩
          rw [Machine.pipeWritten_eq]
          apply hdecrypting.congr
          all_goals simp [Machine.advanced, TcpConn.advance, src.other_ne.symm, hdecrypting.alive,
            hdecrypting.usable]
      . intro f m' hhalted
        exact hhalted.2.room hready.room
  . simp only [fireWrite, wp_bind, wp_deref hdst, wp_pure]
    exact .running h hready

theorem readFits_piping (hE : E.crypto = cryptoInit K) (h : m.Decrypting K ps ct src)
    (hoff : (m.conn src).rbufOff ≤ (m.conn src).rbufLen) {inp : Inputs (CipherCtx ε)}
    (hcontinues : Continues ct src m ((m.conn src).rbufLen - (m.conn src).rbufOff) inp)
    (hroom : HasRoom K ps src m ((m.conn src).rbufLen - (m.conn src).rbufOff) inp)
    : ReadFits E src (m.piping src src.other)
        ⟨(m.conn src).rbufOff, ((m.conn src).rbufLen - (m.conn src).rbufOff).toNat, inp⟩ := by
  rw [Continues, ← received_piping] at hcontinues
  rw [HasRoom, ← received_piping] at hroom
  apply (readCall_room hE (fun _ => h.piping) _ _).1
  . intro _
    rw [Int.toNat_of_nonneg (by omega)]
    exact hcontinues
  . intro _
    rw [Int.toNat_of_nonneg (by omega)]
    exact hroom

theorem pipeStep_room (hE : E.crypto = cryptoInit K) (h : m.Roomy K ps ct src)
    {a : PipeEvent × Inputs (CipherCtx ε)} (hcontinues : OnPipeRead src (Continues ct src) m a)
    (hroom : OnPipeRead src (HasRoom K ps src) m a)
    : PipeFits E src m a ∧ ∀ m', pipeStep E (.one src) m a = .ok m' → m'.Roomy K ps ct src := by
  rcases a with ⟨ev, inp⟩
  have hsame : (m.conn src).rbufOff ≤ (m.conn src).rbufLen
      ∧ ∀ m', Except.ok (ε := Fault) m = .ok m' → m'.Roomy K ps ct src := by
    refine ⟨h.room, ?_⟩
    intro m' hm'
    rw [← Except.ok.inj hm']
    exact h
  suffices hread : OnPipeRead src (fun m bufLen inp => ReadFits E src (m.piping src src.other)
        ⟨(m.conn src).rbufOff, bufLen.toNat, inp⟩) m (ev, inp)
      ∧ (let m' := pipeLeaves E (.one src) m (ev, inp)
         (m'.conn src).rbufOff ≤ (m'.conn src).rbufLen)
      ∧ ∀ m', pipeStep E (.one src) m (ev, inp) = .ok m' → m'.Roomy K ps ct src by
    exact ⟨⟨hread.1, hread.2.1⟩, hread.2.2⟩
  cases h with
  | ended re we room =>
    cases ev with
    | readable s =>
      refine ⟨fun _ hre => absurd hre (by simp [re]), ?_⟩
      simp only [pipeLeaves, pipeStep, Pipes.one, decide_eq_true_eq]
      split
      . next hs =>
        rw [hs.1, re] at hs
        simp at hs
      . exact hsame
    | writable s =>
      refine ⟨trivial, ?_⟩
      simp only [pipeLeaves, pipeStep, Pipes.one, decide_eq_true_eq]
      split
      . next hs =>
        rw [hs.1, we] at hs
        simp at hs
      . exact hsame
  | running h hready =>
    have hinp := h.withInp inp
    have hready' : PipeReady (m.withInp inp) src := by
      refine ⟨?_, hready.connected, hready.owned.congr ⟨rfl, rfl, rfl, rfl⟩, hready.room⟩
      simpa using hready.usable
    cases ev with
    | readable s =>
      refine ⟨?_, ?_⟩
      . intro hs hre
        exact readFits_piping hE h hready.room (hcontinues hs hre) (hroom hs hre)
      . simp only [pipeLeaves, pipeStep, Pipes.one, decide_eq_true_eq]
        split
        . next hs =>
          obtain ⟨rfl, hre⟩ := hs
          exact leaves_of_wp (fun _ => Machine.Roomy.room)
            (tcpPipe_room hE hinp hready' (hcontinues rfl hre) (hroom rfl hre))
        . exact hsame
    | writable s =>
      refine ⟨trivial, ?_⟩
      simp only [pipeLeaves, pipeStep, Pipes.one, decide_eq_true_eq]
      split
      . next hs =>
        obtain ⟨rfl, hwe⟩ := hs
        exact leaves_of_wp (fun _ => Machine.Roomy.room) (tcpConnWriteHandler_room hinp hready')
      . exact hsame

end

end

/--
As long as there is room for what the next bytes of the stream are decrypted to, the buffer is never
enlarged, no call returns more than fits into it, and the offset of the pipe stays within it.
-/
theorem decrypted_fits (E : Env (CipherCtx ε)) (K : Cipher ε) (ps : List (List Byte)) (ct : List Byte)
    (s : Side) (m : Machine (CipherCtx ε)) (hE : E.crypto = cryptoInit K) (hct : K.Sends ps ct)
    (hm : DecryptStart K ct m s)
    : (∀ calls : List (ReadCall (CipherCtx ε)),
        Along (readCall E s)
            (fun m a => OnCall s (Continues ct s) m a ∧ OnCall s (HasRoom K ps s) m a) m calls
          → Along (readCall E s) (ReadFits E s) m calls)
      ∧ (PipeReady m s → ∀ as : List (PipeEvent × Inputs (CipherCtx ε)),
        Along (pipeStep E (.one s))
            (fun m a => OnPipeRead s (Continues ct s) m a ∧ OnPipeRead s (HasRoom K ps s) m a) m as
          → Along (pipeStep E (.one s)) (PipeFits E s) m as) := by
  have hdecrypting := hm.decrypting hct
  refine ⟨?_, ?_⟩
  . intro calls h
    apply h.of_invariant (I := fun m => (m.conn s).live = true → m.Decrypting K ps ct s)
    . intro m a m' hm ha heq
      exact (readCall_room hE hm ha.1 ha.2).2 m' heq
    . intro m a hm ha
      exact (readCall_room hE hm ha.1 ha.2).1
    . exact fun _ => hdecrypting
  . intro hready as h
    apply h.of_invariant (I := Machine.Roomy K ps ct s)
    . intro m a m' hm ha heq
      exact (pipeStep_room hE hm ha.1 ha.2).2 m' heq
    . intro m a hm ha
      exact (pipeStep_room hE hm ha.1 ha.2).1
    . exact .running hdecrypting hready

theorem decrypted_fits_in_parts
    : let tag := List.replicate 16 0
      let salt := List.replicate 32 7
      let first := salt ++ [0, 1] ++ tag ++ [5] ++ tag ++ [0, 2] ++ tag
      let rest := [8, 9] ++ tag
      let inp := Inputs.idle (CipherCtx.new salt)
      let E := Env.default .xsRedir (cryptoInit (.aead AeadCipher.zero)) .text
      let c := { TcpShadowsocks.client [] (CipherCtx.new salt) with state := .STREAM }
      let m := Machine.pair (.new .raw true 60) { TcpConn.new (.shadowsocks c) true 60 with re := true }
        (.new salt)
      Along (readCall E .remote) (ReadFits E .remote) m [
          ⟨0, 128, { inp with reads := [[.data first]] }⟩,
          ⟨1, 127, { inp with reads := [[.data rest]] }⟩
        ]
        ∧ Along (pipeStep E (.one .remote)) (PipeFits E .remote) m [
          (.readable .remote, { inp with reads := [[.data first]] }),
          (.writable .remote, { inp with writes := [[.count 1]] }),
          (.writable .remote, inp),
          (.readable .remote, { inp with reads := [[.data rest]] })
        ] := by
  intro tag salt first rest inp E c m
  let K : Cipher Unit := .aead AeadCipher.zero
  have hsends : K.Sends [[5], [8, 9]] (first ++ rest) := by
    have hencode : (encodeAll (cryptoInit K).encrypt (.new salt) [[5], [8, 9]]).map Prod.fst
        = some (first ++ rest) := by
      decide +kernel
    obtain ⟨⟨_, eCtx'⟩, hencode, rfl⟩ := Option.map_eq_some_iff.mp hencode
    exact ⟨.new salt, eCtx', rfl, hencode, rfl, by simp [CHUNK_SIZE_MASK]⟩
  have hstart : DecryptStart K (first ++ rest) m .remote := by
    refine ⟨Machine.alive_pair rfl rfl, Machine.usable_pair rfl rfl _, List.nil_prefix, ?_⟩
    exact ⟨c, _, rfl, rfl, rfl, .nil⟩
  have hready : PipeReady m .remote := by
    refine ⟨Machine.usable_pair rfl rfl _, rfl, ⟨?_, ?_, ?_⟩, ?_⟩
    all_goals simp [m, Machine.pair, TcpConn.new, Side.other]
  have hfits := decrypted_fits E K [[5], [8, 9]] (first ++ rest) .remote m rfl hsends hstart
  constructor
  . apply hfits.1
    decide +kernel
  . apply hfits.2 hready
    decide +kernel

section

variable {K : StreamCipher ε} {E : Env (CipherCtx ε)} {m : Machine (CipherCtx ε)} {s : Side}

theorem le_demand_update {ctx : CipherCtx ε} {data : List Byte} (hmethod : SALSA20 ≤ K.method)
    (hdata : data ≠ []) (hpadding : ctx.counter % SODIUM_BLOCK_SIZE ≠ 0)
    : data.length + ctx.counter % SODIUM_BLOCK_SIZE ≤ (streamDecrypt.update K ctx data).demand := by
  have hpos : 0 < data.length := List.length_pos_iff.mpr hdata
  unfold streamDecrypt.update
  rw [if_neg (by omega), if_pos hmethod]
  dsimp only
  rw [if_neg hpadding]
  unfold streamDecrypt.finish
  split
  . split
    . exact Nat.le_refl _
    . exact Nat.le_max_left _ _
  . exact Nat.le_max_left _ _

theorem tcpShadowsocksConnRead_exceeds {c : TcpShadowsocks (CipherCtx ε)} {off bufLen : Nat} {data : List Byte}
    (hE : E.crypto = cryptoInit (.stream K)) (hmethod : SALSA20 ≤ K.method) (halive : m.Alive)
    (hs : m.Usable s) (hc : (m.conn s).proto = .shadowsocks c) (hinit : c.dCtx.init ≠ 0)
    (hpadding : c.dCtx.counter % SODIUM_BLOCK_SIZE ≠ 0) (hdata : data ≠ [])
    (hread : netTcpRead bufLen (m.inp.reads.headD []) = ⟨data.length, false, data⟩)
    (hexceeds : bufLen < data.length + c.dCtx.counter % SODIUM_BLOCK_SIZE)
    : wp (tcpShadowsocksConnRead E s off bufLen) (fun _ _ => False) (fun f _ => f = .brealloc) m := by
  have hpos : 0 < data.length := List.length_pos_iff.mpr hdata
  have hdemand := le_demand_update hmethod hdata hpadding
  rw [wp_tcpShadowsocksConnRead halive hs hc]
  dsimp only
  rw [Machine.netRead, hread]
  dsimp only
  rw [if_neg (by rw [ERR]; omega), if_neg (by simp), if_neg (by omega), hE, DecryptPost]
  have hdecrypt : (cryptoInit (.stream K)).decrypt c.dCtx data = streamDecrypt.update K c.dCtx data :=
    if_neg hinit
  rw [hdecrypt, if_pos (by omega)]

end

/-- xs-redir with chacha20, where a read of one byte is followed by one that fills the buffer. -/
theorem decrypted_exceeds_buffer
    : let K : Cipher Unit := .stream StreamCipher.zero
      let nonce := List.replicate 8 7
      let full := List.replicate NET_IOBUF_LEN 0
      let ct := nonce ++ [5] ++ full
      let inp := Inputs.idle (CipherCtx.new nonce)
      let E := Env.default .xsRedir (cryptoInit K) .text
      let c := { TcpShadowsocks.client [] (CipherCtx.new nonce) with state := .STREAM }
      let m := Machine.pair (.new .raw true 60) { TcpConn.new (.shadowsocks c) true 60 with re := true }
        (.new nonce)
      let calls := [
        ⟨0, NET_IOBUF_LEN, { inp with reads := [[.data (nonce ++ [5])]] }⟩,
        ⟨0, NET_IOBUF_LEN, { inp with reads := [[.data full]] }⟩
      ]
      K.Sends [[5], full] ct ∧ DecryptStart K ct m .remote
        ∧ Along (readCall E .remote) (OnCall .remote (Continues ct .remote)) m calls
        ∧ ¬Along (readCall E .remote) (ReadFits E .remote) m calls := by
  intro K nonce full ct inp E c m calls
  have hlength : full.length = NET_IOBUF_LEN := List.length_replicate
  have hdata : full ≠ [] := by
    apply List.ne_nil_of_length_pos
    rw [hlength]
    decide
  have hread : netTcpRead NET_IOBUF_LEN [.data full] = ⟨full.length, false, full⟩ := by
    apply netTcpRead_data hdata
    omega
  clear_value full
  have hsends : K.Sends [[5], full] ct := by
    have hencode : encodeAll (cryptoInit K).encrypt (.new nonce) [[5], full]
        = some (nonce ++ [5] ++ (full ++ []), _) := rfl
    rw [List.append_nil] at hencode
    exact ⟨.new nonce, _, rfl, hencode, rfl⟩
  have hstart : DecryptStart K ct m .remote := by
    refine ⟨Machine.alive_pair rfl rfl, Machine.usable_pair rfl rfl _, List.nil_prefix, ?_⟩
    exact ⟨c, _, rfl, rfl, rfl, .nil⟩
  let first : ReadCall (CipherCtx Unit) :=
    ⟨0, NET_IOBUF_LEN, { inp with reads := [[.data (nonce ++ [5])]] }⟩
  have hfirst : Continues ct .remote m first.bufLen first.inp := by
    have harriving : arriving first.bufLen first.inp = nonce ++ [5] := by decide +kernel
    rw [Continues, harriving]
    exact List.prefix_append _ _
  have hroom : OnCall .remote (HasRoom K [[5], full] .remote) m first :=
    fun _ _ _ hle => absurd hle (by decide)
  obtain ⟨m₁, hm₁, hlive, hreceived⟩ : ∃ m₁, readCall E .remote m first = .ok m₁
      ∧ (m₁.conn .remote).live = true ∧ Io.received .remote m₁.trace = nonce ++ [5] :=
    exists_ok_of_eval (fun m₁ : Machine (CipherCtx Unit) =>
      (m₁.conn .remote).live = true ∧ Io.received .remote m₁.trace = nonce ++ [5]) (by decide +kernel)
  have hdecrypting := (readCall_room rfl (fun _ => hstart.decrypting hsends) (fun _ => hfirst) hroom).2
    m₁ hm₁ hlive
  refine ⟨hsends, hstart, ?_, ?_⟩
  . refine ⟨fun _ => hfirst, ?_⟩
    intro m₂ hm₂
    obtain rfl := Except.ok.inj (hm₁.symm.trans hm₂)
    refine ⟨fun _ => ?_, fun _ _ => trivial⟩
    rw [Continues, hreceived, arriving]
    dsimp only [List.headD]
    rw [hread]
  . intro ⟨_, hfits⟩
    obtain ⟨c₁, hc₁, hsynced⟩ := hdecrypting.synced
    rw [hreceived] at hsynced
    obtain ⟨nread, m₂, heq, -⟩ := (hfits m₁ hm₁).1 hlive
    cases hsynced with
    | running init le counter =>
      have hdecrypting₁ := hdecrypting.withInp { inp with reads := [[.data full]] }
      have hpadding : c₁.dCtx.counter % SODIUM_BLOCK_SIZE = 1 := counter (by decide)
      have hexceeds : wp (tcpShadowsocksConnRead E .remote 0 NET_IOBUF_LEN) _ _
          (m₁.withInp { inp with reads := [[.data full]] }) :=
        tcpShadowsocksConnRead_exceeds rfl (by decide) hdecrypting₁.alive hdecrypting₁.usable hc₁ init
          (by omega) hdata hread (by omega)
      rw [wp, heq] at hexceeds
      exact hexceeds

end Xsocks
