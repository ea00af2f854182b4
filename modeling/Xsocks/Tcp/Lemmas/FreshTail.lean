import Xsocks.Tcp.Lemmas.HandshakeSafety
import Xsocks.Tcp.Lemmas.Persistent

/-!
This module contains two runs of a SOCKS5 connection for which `xs_realloc` has left different bytes in the
place of `addrbuf_dest`.
-/

namespace Xsocks

open Wp Run

variable {κ : Type}

def Sds.masked : Sds → Sds
  | .created bytes => .created bytes
  | .pointer _ => .pointer 0

def Proto.masked : Proto κ → Proto κ
  | .socks5 c => .socks5 { c with addrbufDest := c.addrbufDest.masked }
  | proto => proto

structure Machine.Alike (m m' : Machine κ) : Prop where
  conn : ∀ s, { m'.conn s with proto := (m'.conn s).proto.masked }
    = { m.conn s with proto := (m.conn s).proto.masked }
  remote : m'.remote = m.remote
  clientCount : m'.clientCount = m.clientCount
  remoteCount : m'.remoteCount = m.remoteCount
  trace : m'.trace = m.trace

/-- One event of a pair, where a fault leaves the state in which it has occurred. -/
def pairTurn (E : Env κ) (m : Machine κ) (a : (Side × Ready) × Inputs κ)
    : Except (Fault × Machine κ) (Machine κ) :=
  if (m.conn a.1.1).registered a.1.2 then
    match handler E a.1.1 a.1.2 (m.withInp a.2) with
    | .ok _ m => .ok m
    | .error f m => .error (f, m)
  else .ok m

def leftIn : Except (Fault × Machine κ) (Machine κ) → Machine κ
  | .ok m => m
  | .error (_, m) => m

structure SameEnd (r r' : Except (Fault × Machine κ) (Machine κ)) : Prop where
  fault : (match r' with | .ok _ => none | .error (f, _) => some f)
    = match r with | .ok _ => none | .error (f, _) => some f
  alike : (leftIn r).Alike (leftIn r')

def runWith (E : Env κ) (inp : Inputs κ) (as : List ((Side × Ready) × Inputs κ)) (tail : Nat)
    : Except (Fault × Machine κ) (Machine κ) :=
  run (pairTurn E) (.accepted E .SOCKS5 { inp with tail := tail }) as

structure Independent (E : Env κ) (inp : Inputs κ) (as : List ((Side × Ready) × Inputs κ)) : Prop where
  same : ∀ tail tail', SameEnd (runWith E inp as tail) (runWith E inp as tail')
  released : ∀ tail p, .sdsfree (.pointer p) ∈ (leftIn (runWith E inp as tail)).trace → p = 0
  assigned : ∀ tail c, ((leftIn (runWith E inp as tail)).conn .client).proto = .socks5 c → c.state = .STREAM
    → ∃ bytes, c.addrbufDest = .created bytes

namespace Local

/--
The read event of a client in the state of `c` closes the connection before there is an address: an error or
the end of the stream, a message that is not the expected one, or an answer that cannot be written.
-/
def Closes (E : Env κ) (c : TcpSocks5) (m : Machine κ) : Prop :=
  let res := m.netRead NET_IOBUF_LEN
  res.nread = ERR
    ∨ res.nread = 0 ∧ res.closed = true
    ∨ 0 < res.nread ∧ (accepts E c res.data = false ∨ c.state = .INIT ∧ m.netWrite authResp.length = ERR)

instance (E : Env κ) (c : TcpSocks5) (m : Machine κ) : Decidable (Closes E c m) :=
  inferInstanceAs (Decidable (_ ∨ _ ∨ _))

/-- The condition on an event: the connection is not closed while `addrbuf_dest` has not been assigned. -/
def Untouched (E : Env κ) (m : Machine κ) (a : (Side × Ready) × Inputs κ) : Prop :=
  match (m.conn .client).proto with
  | .socks5 ⟨flags, state, .pointer p⟩ =>
    (m.conn a.1.1).registered a.1.2 = true
      → a.1.2 ≠ .timeout ∧ ¬Closes E ⟨flags, state, .pointer p⟩ (m.withInp a.2)
  | _ => True

instance (E : Env κ) (m : Machine κ) (a : (Side × Ready) × Inputs κ) : Decidable (Untouched E m a) :=
  match hproto : (m.conn .client).proto with
  | .socks5 ⟨flags, state, .pointer p⟩ =>
    decidable_of_iff ((m.conn a.1.1).registered a.1.2 = true
      → a.1.2 ≠ .timeout ∧ ¬Closes E ⟨flags, state, .pointer p⟩ (m.withInp a.2)) (by rw [Untouched, hproto])
  | .socks5 ⟨_, _, .created _⟩ => .isTrue (by rw [Untouched, hproto]; trivial)
  | .shadowsocks _ => .isTrue (by rw [Untouched, hproto]; trivial)
  | .raw => .isTrue (by rw [Untouched, hproto]; trivial)

structure Fresh (E : Env κ) (c : TcpSocks5) (m : Machine κ) : Prop where
  handshaking : m.Handshaking E
  greeting : Greeting m c
  state : c.state ≠ .STREAM
  dest : ∃ p, c.addrbufDest = .pointer p
  err : (m.conn .client).err = .none
  raw : (m.conn .remote).proto = .raw
  unreleased : ∀ x, .sdsfree x ∉ m.trace

section

variable {E : Env κ} {m : Machine κ} {c : TcpSocks5} {r : List Byte}

def answered (m : Machine κ) (c : TcpSocks5) (r : List Byte) : Machine κ :=
  (((replying m r).log (.write .client r.length)).sent .client authResp).setSocks5 .client
    { c with state := .HANDSHAKE }

def addressed (E : Env κ) (m : Machine κ) (c : TcpSocks5) (r : List Byte) (addr : Socks5Addr) : Machine κ :=
  (replying m r).setSocks5 .client
    { c with addrbufDest := .created (encodeAddr E.inet m.inp.uninit (.ofBuf addr.host) addr.port) }

inductive Course (E : Env κ) (c : TcpSocks5) (m : Machine κ) : Prop where
  | quiet (read : m.netRead NET_IOBUF_LEN = ⟨0, false, []⟩)
  | cut (r : List Byte) (n : Nat) (ne : r ≠ []) (read : m.netRead NET_IOBUF_LEN = ⟨r.length, false, r⟩)
      (state : c.state = .INIT) (auth : authAccepted r = true) (write : m.netWrite authResp.length = n)
      (lt : n < authResp.length)
  | selected (r : List Byte) (ne : r ≠ []) (read : m.netRead NET_IOBUF_LEN = ⟨r.length, false, r⟩)
      (state : c.state = .INIT) (auth : authAccepted r = true)
      (write : m.netWrite authResp.length = authResp.length)
  | requested (r : List Byte) (addr : Socks5Addr) (ne : r ≠ [])
      (read : m.netRead NET_IOBUF_LEN = ⟨r.length, false, r⟩) (state : c.state = .HANDSHAKE)
      (request : requested E.inet r = some addr)

theorem course_of_not_closes (hstate : c.state ≠ .STREAM) (h : ¬Closes E c m) : Course E c m := by
  unfold Closes at h
  dsimp only at h
  rcases netTcpRead_cases NET_IOBUF_LEN (m.inp.reads.headD []) with heq | heq | heq | ⟨r, hr, hlen, heq⟩
  . rw [Machine.netRead, heq] at h
    simp at h
  . rw [Machine.netRead, heq] at h
    simp at h
  . exact .quiet heq
  . have hpos : (0 : Int) < r.length := by
      have := List.length_pos_iff.mpr hr
      omega
    rw [Machine.netRead, heq] at h
    simp only [not_or, not_and, hpos, true_implies] at h
    obtain ⟨-, -, haccepts, hwrite⟩ := h
    unfold accepts at haccepts
    cases hc : c.state with
    | INIT =>
      rw [hc] at haccepts
      have hauth : authAccepted r = true := by simpa using haccepts
      rcases netTcpWrite_cases authResp.length (m.inp.writes.headD []) with herr | ⟨n, hn, hnwrite⟩
      . exact absurd herr (hwrite hc)
      . by_cases hlt : n < authResp.length
        . exact .cut r n hr heq hc hauth hnwrite hlt
        . refine .selected r hr heq hc hauth ?_
          rw [Machine.netWrite, hnwrite]
          omega
    | HANDSHAKE =>
      rw [hc] at haccepts
      dsimp only at haccepts
      cases hreq : Xsocks.requested E.inet r with
      | none => simp [hreq] at haccepts
      | some addr => exact .requested r addr hr heq hc hreq
    | STREAM => contradiction

theorem Greeting.read_quiet (happ : E.app = .xsLocal) (h : Greeting m c) (hstate : c.state ≠ .STREAM)
    (hread : m.netRead NET_IOBUF_LEN = ⟨0, false, []⟩)
    : handler E .client .read m = .ok () (replying m []) := by
  apply eq_ok_of_wp_iff
  intro Q F
  rw [h.wp_read happ hstate, wp_tcpSocks5ConnRead h.alive h.alive.client h.proto h.flags, hread]
  dsimp only
  rw [if_neg (by decide), if_neg (by simp), if_pos (by decide), answer, if_neg (by decide)]
  rfl

theorem Greeting.read_auth (happ : E.app = .xsLocal) (h : Greeting m c) (hne : r ≠ [])
    (hread : m.netRead NET_IOBUF_LEN = ⟨r.length, false, r⟩) (hstate : c.state = .INIT)
    (hauth : authAccepted r = true) (Q : Unit → Machine κ → Prop) (F : Fault → Machine κ → Prop)
    : wp (handler E .client .read) Q F m
        ↔ wp (tcpSocks5ConnWrite.reply .client authResp .HANDSHAKE) (fun _ => Q ()) F
            ((replying m r).log (.write .client r.length)) := by
  have hpos : (0 : Int) < r.length := by
    have := List.length_pos_iff.mpr hne
    omega
  have hm := h.received r
  have hclient := hm.alive.client
  rw [wp_message happ h (by simp [hstate]) hne hread, MessagePost, hstate]
  dsimp only
  rw [if_pos hauth, answer, if_pos hpos, wp_bind, wp_deref hclient, wp_bind, connWrite, wp_bind, wp_deref hclient,
    wp_bind, wp_logIo, hm.proto]
  dsimp only
  rw [tcpSocks5ConnWrite, wp_bind, wp_derefSocks5 (by simpa using hclient) (by simpa using hm.proto), h.flags,
    if_neg (by simp), hstate]
  rfl

theorem Greeting.read_cut (happ : E.app = .xsLocal) (h : Greeting m c) (hne : r ≠ [])
    (hread : m.netRead NET_IOBUF_LEN = ⟨r.length, false, r⟩) (hstate : c.state = .INIT)
    (hauth : authAccepted r = true) {n : Nat} (hwrite : m.netWrite authResp.length = n)
    (hlt : n < authResp.length) (herr : (m.conn .client).err = .none)
    : handler E .client .read m = .error .nullDeref
        (((replying m r).log (.write .client r.length)).sent .client (authResp.take n)) := by
  have hm := h.received r
  have hnetWrite : ((replying m r).log (.write .client r.length)).netWrite authResp.length = n := hwrite
  apply eq_error_of_wp_iff
  intro Q F
  rw [h.read_auth happ hne hread hstate hauth, tcpSocks5ConnWrite.reply, wp_bind,
    wp_tcpWrite (by simpa using hm.alive) (by simpa using hm.alive.client), hnetWrite]
  dsimp only
  rw [if_neg (by rw [ERR]; omega), if_neg (by omega), if_pos (by omega), Int.toNat_natCast,
    wp_failed (by simpa using hm.alive) (by simpa using hm.alive.client), if_pos]
  constructor
  . simpa [replying, Machine.restarted, Machine.received, Machine.sent] using herr
  . exact h.remote

theorem Greeting.read_selected (happ : E.app = .xsLocal) (h : Greeting m c) (hne : r ≠ [])
    (hread : m.netRead NET_IOBUF_LEN = ⟨r.length, false, r⟩) (hstate : c.state = .INIT)
    (hauth : authAccepted r = true) (hwrite : m.netWrite authResp.length = authResp.length)
    : handler E .client .read m = .ok () (answered m c r) := by
  have hm := h.received r
  have hnetWrite : ((replying m r).log (.write .client r.length)).netWrite authResp.length
      = authResp.length := hwrite
  apply eq_ok_of_wp_iff
  intro Q F
  rw [h.read_auth happ hne hread hstate hauth, tcpSocks5ConnWrite.reply, wp_bind,
    wp_tcpWrite (by simpa using hm.alive) (by simpa using hm.alive.client), hnetWrite]
  dsimp only
  rw [if_neg (by decide), if_neg (by decide), if_neg (by simp), wp_bind,
    wp_assignSocks5 (by simpa using hm.alive.client) (by simpa [Machine.sent] using hm.proto), Int.toNat_natCast,
    List.take_length]
  rfl

theorem Greeting.read_requested (happ : E.app = .xsLocal) (h : Greeting m c) (hne : r ≠ [])
    (hread : m.netRead NET_IOBUF_LEN = ⟨r.length, false, r⟩) (hstate : c.state = .HANDSHAKE)
    {addr : Socks5Addr} (hrequest : requested E.inet r = some addr)
    : handler E .client .read m = answer E r.length (addressed E m c r addr) := by
  apply eq_of_wp_iff
  intro Q F
  rw [wp_message happ h (by simp [hstate]) hne hread, MessagePost, hstate]
  dsimp only
  rw [hrequest, addressed, hstate]
  rfl

theorem sdsfree_mem_closed (hproto : (m.conn .client).proto = .socks5 c)
    : .sdsfree c.addrbufDest ∈ (m.closed .client).trace := by
  cases hr : m.remote <;>
    simp [Machine.closed, Machine.freed, Machine.closeConn, TcpConn.closeIo, hproto, hr]

theorem Greeting.read_closes (happ : E.app = .xsLocal) (h : Greeting m c) (hstate : c.state ≠ .STREAM)
    (hcloses : Closes E c m)
    : wp (handler E .client .read)
        (fun _ m' => (m'.conn .client).live = false ∧ .sdsfree c.addrbufDest ∈ m'.trace) (fun _ _ => False) m := by
  have hclosed : ∀ m' : Machine κ, (m'.conn .client).proto = .socks5 c
      → ((m'.closed .client).conn .client).live = false
        ∧ .sdsfree c.addrbufDest ∈ (m'.closed .client).trace :=
    fun m' hproto => ⟨live_closed _ _, sdsfree_mem_closed hproto⟩
  unfold Closes at hcloses
  dsimp only at hcloses
  rcases netTcpRead_cases NET_IOBUF_LEN (m.inp.reads.headD []) with heq | heq | heq | ⟨r, hr, hlen, heq⟩
  . rw [h.wp_read happ hstate, wp_tcpSocks5ConnRead h.alive h.alive.client h.proto h.flags, Machine.netRead, heq]
    dsimp only
    rw [if_pos rfl, answer, if_neg (by decide), wp_pure]
    apply hclosed
    simpa [Machine.withErr, Machine.received] using h.proto
  . rw [h.wp_read happ hstate, wp_tcpSocks5ConnRead h.alive h.alive.client h.proto h.flags, Machine.netRead, heq]
    dsimp only
    rw [if_neg (by decide), if_pos (by simp), answer, if_neg (by decide), wp_pure]
    apply hclosed
    simpa [Machine.withErr, Machine.received] using h.proto
  . rw [Machine.netRead, heq] at hcloses
    simp [ERR] at hcloses
  . have hread : m.netRead NET_IOBUF_LEN = ⟨r.length, false, r⟩ := heq
    have hm := h.received r
    have hreject : ∀ err, (((replying m r).withErr .client err).conn .client).proto = .socks5 c := by
      intro err
      simpa [Machine.withErr] using hm.proto
    rw [hread] at hcloses
    simp only [Bool.false_eq_true, and_false, false_or] at hcloses
    rcases hcloses with herr | ⟨hpos, hcloses⟩
    . rw [ERR] at herr
      omega
    . by_cases haccepts : accepts E c r = true
      . -- The answer to the method selection message cannot be written.
        obtain ⟨hinit, hwrite⟩ := hcloses.resolve_left (by simp [haccepts])
        have hauth : authAccepted r = true := by simpa [accepts, hinit] using haccepts
        have hnetWrite : ((replying m r).log (.write .client r.length)).netWrite authResp.length = ERR := hwrite
        rw [h.read_auth happ hr hread hinit hauth, tcpSocks5ConnWrite.reply, wp_bind,
          wp_tcpWrite (by simpa using hm.alive) (by simpa using hm.alive.client), hnetWrite]
        dsimp only
        rw [if_pos rfl, if_pos (by decide), wp_pure]
        apply hclosed
        simpa [Machine.withErr, Machine.sent] using hm.proto
      . rw [wp_message happ h hstate hr hread, MessagePost]
        cases hc : c.state with
        | INIT =>
          have hauth : ¬authAccepted r = true := by simpa [accepts, hc] using haccepts
          dsimp only
          rw [if_neg hauth, answer, if_neg (by decide), wp_pure]
          exact hclosed _ (hreject _)
        | HANDSHAKE =>
          have hrequest : Xsocks.requested E.inet r = none := by simpa [accepts, hc] using haccepts
          dsimp only
          rw [hrequest]
          dsimp only
          rw [answer, if_neg (by decide), wp_pure]
          exact hclosed _ (hreject _)
        | STREAM => contradiction

def twin (c : TcpSocks5) (p : Nat) : TcpSocks5 :=
  { c with addrbufDest := .pointer p }

variable {p : Nat}

theorem setSocks5_setSocks5 (c c' : TcpSocks5)
    : (m.setSocks5 .client c).setSocks5 .client c' = m.setSocks5 .client c' := by
  simp [Machine.setSocks5, Machine.upd]

theorem replying_setSocks5 (c' : TcpSocks5)
    : replying (m.setSocks5 .client c') r = (replying m r).setSocks5 .client c' := by
  simp [replying, Machine.received, Machine.restarted, Machine.setSocks5, Machine.upd, Machine.log, Machine.logs,
    Machine.popReads]

theorem answered_twin
    : answered (m.setSocks5 .client (twin c p)) (twin c p) r
        = (answered m c r).setSocks5 .client (twin { c with state := .HANDSHAKE } p) := by
  have hsent : ∀ m' : Machine κ, ∀ c', ((m'.setSocks5 .client c').log (.write .client r.length)).sent .client authResp
      = ((m'.log (.write .client r.length)).sent .client authResp).setSocks5 .client c' := fun _ _ => rfl
  rw [answered, answered, replying_setSocks5, hsent, setSocks5_setSocks5, setSocks5_setSocks5]
  rfl

theorem addressed_twin {addr : Socks5Addr}
    : addressed E (m.setSocks5 .client (twin c p)) (twin c p) r addr = addressed E m c r addr := by
  rw [addressed, addressed, replying_setSocks5, setSocks5_setSocks5]
  rfl

theorem Fresh.withInp (h : Fresh E c m) (inp : Inputs κ) : Fresh E c (m.withInp inp) where
  handshaking := by
    have hphase : m.Phase E := .inl h.handshaking
    have hphase' : (m.withInp inp).Phase E := hphase.congr rfl rfl rfl
    exact hphase'.handshaking h.handshaking.usable.live h.handshaking.remote
  greeting := h.greeting.withInp inp
  state := h.state
  dest := h.dest
  err := h.err
  raw := h.raw
  unreleased := h.unreleased

theorem Fresh.twin (h : Fresh E c m) (p : Nat) : Fresh E (twin c p) (m.setSocks5 .client (twin c p)) where
  handshaking := by
    apply h.handshaking.framed
    apply Machine.framed_refl.upd
    refine ⟨rfl, rfl, rfl, ?_, ?_⟩
    . rw [h.greeting.proto]
      rfl
    . intro s5 hproto hstate
      rw [h.greeting.proto, Proto.socks5.injEq] at hproto
      exact absurd (hproto ▸ hstate) h.state
  greeting := h.greeting.setSocks5 h.greeting.flags
  state := h.state
  dest := ⟨p, rfl⟩
  err := by simpa [Machine.setSocks5] using h.err
  raw := by simpa [Machine.setSocks5] using h.raw
  unreleased := h.unreleased

theorem Fresh.next (h : Fresh E c m) {m' : Machine κ} (heq : handler E .client .read m = .ok () m')
    {c' : TcpSocks5} (hm' : Greeting m' c')
    : m'.Handshaking E := by
  have hreached := h.handshaking.wp_handler .client .read h.handshaking.re
  exact (post_of_ok hreached heq).2.handshaking hm'.alive.client.live hm'.remote

theorem Fresh.quiet (h : Fresh E c m) (heq : handler E .client .read m = .ok () (replying m []))
    : Fresh E c (replying m []) where
  handshaking := h.next heq (h.greeting.received [])
  greeting := h.greeting.received []
  state := h.state
  dest := h.dest
  err := by simpa [replying, Machine.received, Machine.restarted] using h.err
  raw := by simpa [replying, Machine.received, Machine.restarted] using h.raw
  unreleased := by simpa [replying, Machine.received, Machine.restarted] using h.unreleased

theorem Fresh.selected (h : Fresh E c m) (heq : handler E .client .read m = .ok () (answered m c r))
    : Fresh E { c with state := .HANDSHAKE } (answered m c r) := by
  have hgreeting : Greeting (answered m c r) { c with state := .HANDSHAKE } :=
    ((h.greeting.received r).sent _ _).setSocks5 h.greeting.flags
  constructor
  case handshaking => exact h.next heq hgreeting
  case greeting => exact hgreeting
  case state => simp
  case dest => exact h.dest
  all_goals
    simp only [answered, replying, Machine.received, Machine.restarted, Machine.sent, Machine.setSocks5]
  case err => simpa using h.err
  case raw => simpa using h.raw
  case unreleased => simpa using h.unreleased

end

end Local

structure Machine.Assigned (m : Machine κ) : Prop where
  conn : ∀ s c, (m.conn s).proto = .socks5 c → ∃ bytes, c.addrbufDest = .created bytes
  trace : ∀ x, .sdsfree x ∈ m.trace → ∃ bytes, x = .created bytes

theorem persistent_assigned : Persistent (κ := κ) Machine.Assigned where
  upd m s f hf h := by
    refine ⟨fun t c hproto => h.conn t c ?_, h.trace⟩
    rw [Machine.conn_upd] at hproto
    split at hproto
    . rw [← hf]
      exact hproto
    . exact hproto
  shadowsocks m s f h := by
    refine ⟨fun t c hproto => h.conn t c ?_, h.trace⟩
    rw [Machine.conn_upd] at hproto
    split at hproto
    . unfold TcpConn.updShadowsocks at hproto
      split at hproto
      . contradiction
      . exact hproto
    . exact hproto
  socks5 m s f hf h := by
    refine ⟨fun t c hproto => ?_, h.trace⟩
    rw [Machine.conn_upd] at hproto
    split at hproto
    . unfold TcpConn.updSocks5 at hproto
      split at hproto
      . next s5 hs5 =>
        simp only [Proto.socks5.injEq] at hproto
        subst hproto
        rcases hf s5 with hsame | hcreated
        . rw [hsame]
          exact h.conn t s5 hs5
        . exact hcreated
      . exact h.conn t c hproto
    . exact h.conn t c hproto
  log m io hio h := by
    refine ⟨h.conn, fun x hx => ?_⟩
    rw [Machine.trace_log] at hx
    rcases List.mem_append.mp hx with hx | hx
    . exact h.trace x hx
    . exact absurd (List.mem_singleton.mp hx).symm (hio x)
  sdsfree m s c hproto h := by
    refine ⟨h.conn, fun x hx => ?_⟩
    rw [Machine.trace_log] at hx
    rcases List.mem_append.mp hx with hx | hx
    . exact h.trace x hx
    . rw [List.mem_singleton, Io.sdsfree.injEq] at hx
      rw [hx]
      exact h.conn s c hproto
  popReads m h := ⟨h.conn, h.trace⟩
  popWrites m h := ⟨h.conn, h.trace⟩
  discount m h := ⟨h.conn, h.trace⟩
  addRemote m type timeout htype h := by
    refine ⟨fun t c hproto => ?_, h.trace⟩
    rw [Machine.conn_addRemote] at hproto
    split at hproto
    . unfold TcpConn.new Proto.new at hproto
      cases type with
      | SOCKS5 => contradiction
      | SHADOWSOCKS => simp at hproto
      | RAW => simp at hproto
    . exact h.conn t c hproto

structure Indistinct (m m' : Machine κ) : Prop where
  alike : m.Alike m'
  released : ∀ x, .sdsfree x ∈ m.trace → ∃ bytes, x = .created bytes
  assigned : ∀ c, (m.conn .client).proto = .socks5 c → c.state = .STREAM
    → ∃ bytes, c.addrbufDest = .created bytes

/--
Two runs side by side: `addrbuf_dest` has not been assigned, and it is `p` in the second run, or it has, and
the runs are the same from then on.
-/
inductive Coupled (E : Env κ) (p : Nat) (m m' : Machine κ) : Prop where
  | fresh (c : TcpSocks5) (h : Local.Fresh E c m)
      (eq : ∀ inp, m'.withInp inp = (m.withInp inp).setSocks5 .client (Local.twin c p))
  | assigned (h : m.Assigned) (eq : ∀ inp, m'.withInp inp = m.withInp inp)

def Coincide (E : Env κ) (p : Nat) : (r r' : Except (Fault × Machine κ) (Machine κ)) → Prop
  | .ok m, .ok m' => Coupled E p m m'
  | .error (f, m), .error (f', m') => f' = f ∧ Indistinct m m'
  | _, _ => False

section

variable {E : Env κ} {p : Nat} {m m' : Machine κ} {c : TcpSocks5} {a : (Side × Ready) × Inputs κ}

theorem Machine.Alike.refl : m.Alike m :=
  ⟨fun _ => rfl, rfl, rfl, rfl, rfl⟩

theorem Machine.Alike.of_withInp {inp : Inputs κ} (h : (m.withInp inp).Alike (m'.withInp inp)) : m.Alike m' :=
  ⟨h.conn, h.remote, h.clientCount, h.remoteCount, h.trace⟩

theorem alike_twin (hproto : (m.conn .client).proto = .socks5 c) (hdest : ∃ q, c.addrbufDest = .pointer q)
    : m.Alike (m.setSocks5 .client (Local.twin c p)) := by
  obtain ⟨q, hdest⟩ := hdest
  refine ⟨fun s => ?_, rfl, rfl, rfl, rfl⟩
  cases s with
  | client => simp [Machine.setSocks5, Local.twin, Proto.masked, Sds.masked, hproto, hdest]
  | remote => simp [Machine.setSocks5]

theorem Machine.Assigned.indistinct (h : m.Assigned) : Indistinct m m :=
  ⟨.refl, h.trace, fun c hproto _ => h.conn .client c hproto⟩

theorem Local.Fresh.indistinct (h : Local.Fresh E c m)
    : Indistinct m (m.setSocks5 .client (Local.twin c p)) := by
  refine ⟨alike_twin h.greeting.proto h.dest, fun x hx => absurd hx (h.unreleased x), ?_⟩
  intro c' hproto hstate
  rw [h.greeting.proto, Proto.socks5.injEq] at hproto
  exact absurd (hproto ▸ hstate) h.state

theorem Coupled.indistinct (h : Coupled E p m m') : Indistinct m m' := by
  cases h with
  | fresh c h eq =>
    have hinp := (h.withInp m.inp).indistinct (p := p)
    rw [← eq] at hinp
    exact ⟨hinp.alike.of_withInp, hinp.released, hinp.assigned⟩
  | assigned h eq =>
    have hinp : (m.withInp m.inp).Alike (m'.withInp m.inp) := by
      rw [eq]
      exact .refl
    exact ⟨hinp.of_withInp, h.indistinct.released, h.indistinct.assigned⟩

theorem coincide_self {x : Proc κ Unit} (hx : Preserves Machine.Assigned x) (h : m.Assigned)
    : Coincide E p (match x m with | .ok _ m => .ok m | .error f m => .error (f, m))
        (match x m with | .ok _ m => .ok m | .error f m => .error (f, m)) := by
  have hx := hx m h
  unfold wp at hx
  split
  . next m' heq =>
    rw [heq] at hx
    exact .assigned hx fun _ => rfl
  . next f m' heq =>
    rw [heq] at hx
    exact ⟨rfl, Machine.Assigned.indistinct hx⟩

theorem Local.untouched_iff (hproto : (m.conn .client).proto = .socks5 c)
    (hdest : ∃ q, c.addrbufDest = .pointer q)
    : Local.Untouched E m a ↔ ((m.conn a.1.1).registered a.1.2 = true
        → a.1.2 ≠ .timeout ∧ ¬Local.Closes E c (m.withInp a.2)) := by
  obtain ⟨flags, state, dest⟩ := c
  obtain ⟨q, rfl⟩ := hdest
  rw [Local.Untouched, hproto]

theorem Local.Fresh.event (h : Local.Fresh E c m) (hreg : (m.conn a.1.1).registered a.1.2 = true)
    : a.1 = (.client, .read) ∨ a.1 = (.client, .timeout) := by
  obtain ⟨⟨s, r⟩, inp⟩ := a
  have hm := h.handshaking
  cases s with
  | remote =>
    rw [(hm.intact.absent hm.remote).not_registered (hm.intact.lost .remote)] at hreg
    contradiction
  | client =>
    cases r with
    | read => exact .inl rfl
    | write =>
      rw [TcpConn.registered, hm.we] at hreg
      contradiction
    | timeout => exact .inr rfl

theorem registered_setSocks5 (c : TcpSocks5) (s : Side) (r : Ready)
    : ((m.setSocks5 .client c).conn s).registered r = (m.conn s).registered r := by
  cases s <;> cases r <;> simp [Machine.setSocks5, TcpConn.registered]

theorem Local.Fresh.coincide (happ : E.app = .xsLocal) (h : Local.Fresh E c m)
    (hcloses : ¬Local.Closes E c m)
    : Coincide E p (match handler E .client .read m with | .ok _ m => .ok m | .error f m => .error (f, m))
        (match handler E .client .read (m.setSocks5 .client (Local.twin c p)) with
          | .ok _ m => .ok m
          | .error f m => .error (f, m)) := by
  have hg := h.greeting
  have hg' := (h.twin p).greeting
  cases Local.course_of_not_closes h.state hcloses with
  | quiet read =>
    have heq := hg.read_quiet happ h.state read
    rw [heq, hg'.read_quiet happ h.state read, Local.replying_setSocks5]
    exact .fresh c (h.quiet heq) fun _ => rfl
  | cut r n ne read state auth write lt =>
    rw [hg.read_cut happ ne read state auth write lt h.err,
      hg'.read_cut happ ne read state auth write lt (h.twin p).err, Local.replying_setSocks5]
    refine ⟨rfl, ?_⟩
    have hsent := (hg.received r).sent r.length (authResp.take n)
    refine ⟨alike_twin hsent.proto h.dest, fun x hx => ?_, fun c' hproto hstate => ?_⟩
    . have hmem : .sdsfree x ∈ m.trace := by
        simpa [Local.replying, Machine.received, Machine.restarted, Machine.sent] using hx
      exact absurd hmem (h.unreleased x)
    . rw [hsent.proto, Proto.socks5.injEq] at hproto
      exact absurd (hproto ▸ hstate) h.state
  | selected r ne read state auth write =>
    have heq := hg.read_selected happ ne read state auth write
    rw [heq, hg'.read_selected happ ne read state auth write, Local.answered_twin]
    exact .fresh _ (h.selected heq) fun _ => rfl
  | requested r addr ne read state request =>
    rw [hg.read_requested happ ne read state request, hg'.read_requested happ ne read state request,
      Local.addressed_twin]
    apply coincide_self
    . refine Preserves.ite ?_ Preserves.pure
      apply Preserves.bind preserves_deref
      intro conn
      exact Preserves.bind (preserves_connWrite persistent_assigned) fun _ => Preserves.pure
    . refine ⟨fun s c' hproto => ?_, fun x hx => ?_⟩
      . cases s with
        | client =>
          simp only [Local.addressed, Machine.proto_setSocks5, Proto.socks5.injEq] at hproto
          exact ⟨_, by rw [← hproto]⟩
        | remote =>
          have hraw : ((Local.addressed E m c r addr).conn .remote).proto = .raw := by
            simpa [Local.addressed, Local.replying, Machine.received, Machine.restarted, Machine.setSocks5]
              using h.raw
          rw [hraw] at hproto
          contradiction
      . have hmem : .sdsfree x ∈ m.trace := by
          simpa [Local.addressed, Local.replying, Machine.received, Machine.restarted, Machine.setSocks5] using hx
        exact absurd hmem (h.unreleased x)

theorem Coupled.turn (happ : E.app = .xsLocal) (h : Coupled E p m m') (ha : Local.Untouched E m a)
    : Coincide E p (pairTurn E m a) (pairTurn E m' a) := by
  cases h with
  | assigned h eq =>
    have hconn : (m'.withInp a.2).conn = (m.withInp a.2).conn := congrArg Machine.conn (eq a.2)
    rw [Machine.conn_withInp, Machine.conn_withInp] at hconn
    unfold pairTurn
    rw [hconn, eq]
    split
    . exact coincide_self (preserves_handler persistent_assigned) ⟨h.conn, h.trace⟩
    . exact .assigned h eq
  | fresh c h eq =>
    have hreg : (m'.conn a.1.1).registered a.1.2 = (m.conn a.1.1).registered a.1.2 := by
      have hconn := congrArg Machine.conn (eq a.2)
      rw [Machine.conn_withInp] at hconn
      rw [hconn, registered_setSocks5, Machine.conn_withInp]
    unfold pairTurn
    rw [hreg, eq]
    split
    . next hreg' =>
      obtain ⟨htimeout, hcloses⟩ := (Local.untouched_iff h.greeting.proto h.dest).mp ha hreg'
      rcases h.event hreg' with hread | htimeout'
      . rw [hread]
        exact (h.withInp a.2).coincide happ hcloses
      . rw [htimeout'] at htimeout
        contradiction
    . exact .fresh c h eq

theorem Coupled.runs (happ : E.app = .xsLocal) (h : Coupled E p m m') {as : List ((Side × Ready) × Inputs κ)}
    (has : Along (pairTurn E) (Local.Untouched E) m as)
    : Coincide E p (run (pairTurn E) m as) (run (pairTurn E) m' as) := by
  induction as generalizing m m' with
  | nil => exact h
  | cons a as ih =>
    obtain ⟨ha, has⟩ := has
    have hturn := h.turn happ ha
    unfold Run.run
    revert hturn has
    cases pairTurn E m a with
    | ok n =>
      cases pairTurn E m' a with
      | ok n' => exact fun has hturn => ih hturn (has n rfl)
      | error _ => exact fun _ hturn => hturn.elim
    | error _ =>
      cases pairTurn E m' a with
      | ok _ => exact fun _ hturn => hturn.elim
      | error _ => exact fun _ hturn => hturn

theorem run_pairTurn_over (h : m.Over) (as : List ((Side × Ready) × Inputs κ))
    : run (pairTurn E) m as = .ok m := by
  induction as with
  | nil => rfl
  | cons a as ih =>
    have hturn : pairTurn E m a = .ok m := by
      rw [pairTurn, h.not_registered a.1.1 a.1.2, if_neg (by simp)]
    rw [run, hturn]
    exact ih

theorem Machine.Assigned.untouched (h : m.Assigned) : Local.Untouched E m a := by
  unfold Local.Untouched
  split
  . next flags state q hproto =>
    obtain ⟨bytes, hdest⟩ := h.conn .client _ hproto
    contradiction
  . trivial

theorem Machine.Assigned.along (h : m.Assigned) (as : List ((Side × Ready) × Inputs κ))
    : Along (pairTurn E) (Local.Untouched E) m as := by
  refine (along_true (pairTurn E) m as).of_invariant (I := Machine.Assigned) ?_ ?_ h
  . intro m a m' h _ heq
    unfold pairTurn at heq
    split at heq
    . have hm : (m.withInp a.2).Assigned := ⟨h.conn, h.trace⟩
      have hhandler := preserves_handler (E := E) (s := a.1.1) (r := a.1.2) persistent_assigned _ hm
      split at heq
      . next hok =>
        rw [Except.ok.injEq] at heq
        rw [← heq]
        exact post_of_ok hhandler hok
      . contradiction
    . rw [Except.ok.injEq] at heq
      rw [← heq]
      exact h
  . exact fun m a h _ => h.untouched

theorem Local.Fresh.closed (happ : E.app = .xsLocal) (h : Local.Fresh E c m)
    (hreg : (m.conn a.1.1).registered a.1.2 = true)
    (hcloses : a.1.2 ≠ .timeout → Local.Closes E c (m.withInp a.2))
    : ∃ n, pairTurn E m a = .ok n ∧ n.Over ∧ .sdsfree c.addrbufDest ∈ n.trace := by
  have hm := h.withInp a.2
  have hwp : wp (handler E a.1.1 a.1.2)
      (fun _ m' => (m'.conn .client).live = false ∧ .sdsfree c.addrbufDest ∈ m'.trace) (fun _ _ => False)
      (m.withInp a.2) := by
    rcases h.event hreg with hread | htimeout
    . rw [hread] at hcloses ⊢
      exact hm.greeting.read_closes happ h.state (hcloses (by simp))
    . rw [htimeout, handler, wp_tcpConnTimeoutHandler hm.greeting.alive hm.greeting.alive.client]
      refine ⟨Local.live_closed _ _, Local.sdsfree_mem_closed ?_⟩
      simpa [Machine.withErr] using hm.greeting.proto
  have hreached := hm.handshaking.wp_handler a.1.1 a.1.2 hreg
  obtain ⟨n, heq, hlive, hmem⟩ := exists_ok_unit hwp
  refine ⟨n, ?_, ?_, hmem⟩
  . rw [pairTurn, if_pos hreg, heq]
  . rcases (post_of_ok hreached heq).2.over_or_awake with hover | hawake
    . exact hover
    . rw [hawake.1.alive.client.live] at hlive
      contradiction

theorem Coupled.released (happ : E.app = .xsLocal) (h : Coupled E p m m')
    {as : List ((Side × Ready) × Inputs κ)} (has : ¬Along (pairTurn E) (Local.Untouched E) m as)
    : .sdsfree (.pointer p) ∈ (leftIn (run (pairTurn E) m' as)).trace := by
  induction as generalizing m m' with
  | nil => exact absurd trivial has
  | cons a as ih =>
    cases h with
    | assigned h eq => exact absurd (h.along _) has
    | fresh c h eq =>
      by_cases ha : Local.Untouched E m a
      . have hturn := (Coupled.fresh c h eq).turn happ ha
        have hnot : ¬∀ n, pairTurn E m a = .ok n → Along (pairTurn E) (Local.Untouched E) n as :=
          fun hall => has ⟨ha, hall⟩
        unfold Run.run
        revert hturn hnot
        cases pairTurn E m a with
        | ok n =>
          cases pairTurn E m' a with
          | ok n' =>
            intro hturn hnot
            apply ih hturn
            intro halong
            apply hnot
            intro n₁ heq
            rw [Except.ok.injEq] at heq
            rw [← heq]
            exact halong
          | error _ => exact fun hturn => hturn.elim
        | error _ => exact fun _ hnot => absurd (fun _ heq => by contradiction) hnot
      . rw [Local.untouched_iff h.greeting.proto h.dest, Classical.not_imp] at ha
        obtain ⟨hreg, hbad⟩ := ha
        have hm' : Local.Fresh E (Local.twin c p) (m'.withInp a.2) := by
          rw [eq]
          exact (h.withInp a.2).twin p
        have hreg' : (m'.conn a.1.1).registered a.1.2 = true := by
          have hconn := congrArg Machine.conn (eq a.2)
          rw [Machine.conn_withInp] at hconn
          rw [hconn, registered_setSocks5]
          exact hreg
        have hcloses : a.1.2 ≠ .timeout → Local.Closes E (Local.twin c p) (m'.withInp a.2) := by
          intro htimeout
          rw [eq]
          exact not_not.mp fun hnot => hbad ⟨htimeout, hnot⟩
        obtain ⟨n, heq, hover, hmem⟩ := (hm'.withInp m'.inp).closed happ hreg' hcloses
        have heq : pairTurn E m' a = .ok n := heq
        rw [run, heq]
        dsimp only
        rw [run_pairTurn_over hover]
        exact hmem

theorem coupled_accepted (E : Env κ) (inp : Inputs κ) (p : Nat)
    : Coupled E p (.accepted E .SOCKS5 inp) (.accepted E .SOCKS5 { inp with tail := p }) := by
  have hproper := Local.proper_accepted E inp
  refine .fresh _ ⟨hproper.phase.handshaking rfl rfl, Local.greeting_accepted E inp, by simp, ⟨_, rfl⟩, rfl, rfl,
    by simp [Machine.accepted]⟩ ?_
  intro inp'
  simp only [Machine.withInp, Machine.setSocks5, Machine.upd, Machine.mk.injEq, true_and]
  refine ⟨?_, rfl, rfl, rfl, rfl⟩
  funext s
  cases s <;> rfl

theorem Coincide.sameEnd {r r' r'' : Except (Fault × Machine κ) (Machine κ)} {p' : Nat}
    (h : Coincide E p r r') (h' : Coincide E p' r r'')
    : SameEnd r' r'' := by
  have htrans : ∀ n n' n'' : Machine κ, Indistinct n n' → Indistinct n n'' → n'.Alike n'' := by
    intro n n' n'' h h'
    exact ⟨fun s => (h'.alike.conn s).trans (h.alike.conn s).symm, h'.alike.remote.trans h.alike.remote.symm,
      h'.alike.clientCount.trans h.alike.clientCount.symm,
      h'.alike.remoteCount.trans h.alike.remoteCount.symm, h'.alike.trace.trans h.alike.trace.symm⟩
  cases r with
  | ok n =>
    cases r' with
    | error _ => exact h.elim
    | ok n' =>
      cases r'' with
      | error _ => exact h'.elim
      | ok n'' => exact ⟨rfl, htrans n n' n'' (Coupled.indistinct h) (Coupled.indistinct h')⟩
  | error e =>
    cases r' with
    | ok _ => exact h.elim
    | error e' =>
      cases r'' with
      | ok _ => exact h'.elim
      | error e'' =>
        refine ⟨?_, htrans e.2 e'.2 e''.2 h.2 h'.2⟩
        exact congrArg some (h'.1.trans h.1.symm)

theorem Coincide.indistinct {r r' : Except (Fault × Machine κ) (Machine κ)} (h : Coincide E p r r')
    : Indistinct (leftIn r) (leftIn r') := by
  cases r with
  | ok n =>
    cases r' with
    | error _ => exact h.elim
    | ok n' => exact Coupled.indistinct h
  | error e =>
    cases r' with
    | ok _ => exact h.elim
    | error e' => exact h.2

end

/--
A SOCKS5 connection of xs-local does not depend on what `xs_realloc` leaves in the place of `addrbuf_dest` exactly
if it is not closed before there is an address.
-/
theorem independent_iff {E : Env κ} (happ : E.app = .xsLocal) (inp : Inputs κ)
    (as : List ((Side × Ready) × Inputs κ))
    : Independent E inp as ↔ Along (pairTurn E) (Local.Untouched E) (.accepted E .SOCKS5 inp) as := by
  constructor
  . intro h
    rw [← not_not (a := Along _ _ _ _)]
    intro hnot
    have hmem := (coupled_accepted E inp 1).released happ hnot
    have hzero := h.released 1 1 hmem
    contradiction
  . intro h
    have hruns : ∀ p, Coincide E p (run (pairTurn E) (.accepted E .SOCKS5 inp) as) (runWith E inp as p) :=
      fun p => (coupled_accepted E inp p).runs happ h
    constructor
    case same => exact fun p p' => (hruns p).sameEnd (hruns p')
    case released =>
      intro p q hmem
      have hp := (hruns p).indistinct
      rw [hp.alike.trace] at hmem
      obtain ⟨bytes, heq⟩ := hp.released _ hmem
      contradiction
    case assigned =>
      intro p c hproto hstate
      have hp := (hruns p).indistinct
      have hconn := congrArg TcpConn.proto (hp.alike.conn .client)
      dsimp only at hconn
      rw [hproto] at hconn
      cases hproto' : ((leftIn (run (pairTurn E) (.accepted E .SOCKS5 inp) as)).conn .client).proto with
      | raw =>
        rw [hproto'] at hconn
        contradiction
      | shadowsocks _ =>
        rw [hproto'] at hconn
        contradiction
      | socks5 c' =>
        rw [hproto'] at hconn
        simp only [Proto.masked, Proto.socks5.injEq] at hconn
        obtain ⟨bytes, hdest⟩ := hp.assigned c' hproto' ((congrArg TcpSocks5.state hconn).symm.trans hstate)
        have hmasked := congrArg TcpSocks5.addrbufDest hconn
        dsimp only at hmasked
        rw [hdest] at hmasked
        refine ⟨bytes, ?_⟩
        cases hc : c.addrbufDest with
        | created b =>
          rw [hc] at hmasked
          exact hmasked
        | pointer q =>
          rw [hc] at hmasked
          contradiction

theorem independent_localhost
    : let E : Env Unit := .default .xsLocal .copy .text
      let read := fun r => ((Side.client, Ready.read), arrival (.idle ()) .zero 10 r)
      Independent E (.idle ()) [read [5, 1, 0], read [5, 1, 0, 1, 127, 0, 0, 1, 0, 80], read []] := by
  intro E read
  exact (independent_iff rfl (.idle ()) _).mpr (by decide +kernel)

/-- A client that says nothing until its timer expires. -/
theorem not_independent_timeout
    : ¬Independent (.default .xsLocal .copy .text : Env Unit) (.idle ()) [((.client, .timeout), .idle ())] := by
  intro h
  have hmem : .sdsfree (.pointer 1) ∈ (leftIn (runWith (.default .xsLocal .copy .text : Env Unit) (.idle ())
      [((.client, .timeout), .idle ())] 1)).trace := by
    decide +kernel
  exact absurd (h.released 1 1 hmem) (by decide)

end Xsocks
