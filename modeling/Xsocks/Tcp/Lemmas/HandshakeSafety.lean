import Xsocks.Tcp.Lemmas.Accounting
import Xsocks.Tcp.Lemmas.LocalHandshake

/-!
This module contains what the client of xs-local has said and what it was answered in each state of the
SOCKS5 handshake.
-/

namespace Xsocks

open Wp Run

variable {κ : Type}

namespace Io

def spoken : Io → Bool
  | recv .client data => !data.isEmpty
  | send .client data => !data.isEmpty
  | _ => false

def dialogue (trace : List Io) : List Io :=
  trace.filter spoken

@[simp]
theorem dialogue_append (tr tr' : List Io) : dialogue (tr ++ tr') = dialogue tr ++ dialogue tr' := by
  simp [dialogue]

theorem dialogue_closed {κ : Type} (m : Machine κ) (s : Side)
    : dialogue (m.closed s).trace = dialogue m.trace := by
  obtain ⟨ios, htrace, hclosing, -⟩ := Machine.trace_closed m s
  have hios : dialogue ios = [] := by
    unfold dialogue
    rw [List.filter_eq_nil_iff]
    intro io hio
    have := hclosing io hio
    cases io <;> simp_all [Closing, spoken]
  rw [htrace, dialogue_append, hios, List.append_nil]

end Io

def Selects (r : List Byte) : Prop :=
  ∃ nmethods rest, r = SVERSION :: nmethods :: rest ∧ nmethods.toNat ≤ rest.length
    ∧ METHOD_NOAUTH ∈ rest.take nmethods.toNat

/-- The bytes `r` start with a `CONNECT` request for the destination `addr`. -/
def Requests (I : Inet) (r : List Byte) (addr : Socks5Addr) : Prop :=
  ∃ rsv dest, r = SVERSION :: SOCKS5_CMD_CONNECT :: rsv :: dest ∧ parseAddr I dest = some addr

theorem authAccepted_iff_selects {r : List Byte} : authAccepted r = true ↔ Selects r := by
  rcases r with _ | ⟨b, _ | ⟨nmethods, rest⟩⟩
  . simp [authAccepted, socks5AuthReq, Selects]
    omega
  . simp [authAccepted, socks5AuthReq, Selects]
    omega
  . have h0 : Mem.ofList 0 (b :: nmethods :: rest) 0 = b := rfl
    have h1 : Mem.ofList 0 (b :: nmethods :: rest) 1 = nmethods := rfl
    unfold authAccepted socks5AuthReq
    rw [h0, h1]
    simp only [List.length_cons]
    split
    . next hbad =>
      simp only [Bool.false_eq_true, false_iff]
      rintro ⟨nmethods', rest', heq, hlen, -⟩
      simp only [List.cons.injEq] at heq
      obtain ⟨rfl, rfl, rfl⟩ := heq
      rcases hbad with hbad | hbad
      . omega
      . contradiction
    . next hgood =>
      rw [not_or, not_not] at hgood
      obtain ⟨hlen, rfl⟩ := hgood
      have hle : nmethods.toNat ≤ rest.length := by omega
      have hread := Mem.read_ofList_append 0 [SVERSION, nmethods] (rest.take nmethods.toNat)
        (rest.drop nmethods.toNat)
      simp only [List.length_cons, List.length_nil, List.cons_append, List.nil_append,
        List.take_append_drop, List.length_take, Nat.min_eq_left hle] at hread
      rw [hread, List.contains_iff_mem]
      constructor
      . exact fun hmem => ⟨nmethods, rest, rfl, hle, hmem⟩
      . rintro ⟨nmethods', rest', heq, -, hmem⟩
        simp only [List.cons.injEq, true_and] at heq
        obtain ⟨rfl, rfl⟩ := heq
        exact hmem

theorem requested_iff_requests {I : Inet} {r : List Byte} {addr : Socks5Addr}
    : requested I r = some addr ↔ Requests I r addr := by
  constructor
  case mpr =>
    rintro ⟨rsv, dest, rfl, hparse⟩
    exact requested_of_parseAddr hparse
  intro h
  have hparse := parseAddr_of_requested h
  unfold requested socks5Req at h
  dsimp only at h
  split at h
  . contradiction
  . next hlen =>
    rw [not_or, not_not] at hlen
    split at h
    . contradiction
    . next hcmd =>
      rw [not_not] at hcmd
      rcases r with _ | ⟨b₀, _ | ⟨b₁, _ | ⟨rsv, dest⟩⟩⟩
      . simp at hlen
      . simp at hlen
      . simp at hlen
      . have h0 : b₀ = SVERSION := hlen.2
        have h1 : b₁ = SOCKS5_CMD_CONNECT := hcmd
        subst h0 h1
        exact ⟨rsv, dest, rfl, hparse⟩

namespace Local

def Accepts (E : Env κ) (state : Socks5State) (r : List Byte) : Prop :=
  match state with
  | .INIT => Selects r
  | .HANDSHAKE => ∃ addr, Requests E.inet r addr
  | .STREAM => True

def Agreed (E : Env κ) (c : TcpSocks5) (m : Machine κ) : Prop :=
  match c.state with
  | .INIT => Io.dialogue m.trace = [] ∧ m.remote = false
  | .HANDSHAKE =>
    ∃ r, Selects r ∧ Io.dialogue m.trace = [.recv .client r, .send .client authResp] ∧ m.remote = false
  | .STREAM =>
    ∃ r r' addr uninit bytes, Selects r ∧ Requests E.inet r' addr
      ∧ [.recv .client r, .send .client authResp, .recv .client r', .send .client socks5Resp]
          <+: Io.dialogue m.trace
      ∧ socks5AddrInit E.inet uninit (.ofBuf addr.host) addr.port = some bytes
      ∧ c.addrbufDest = .created bytes

inductive Outcome (E : Env κ) (c : TcpSocks5) (m m' : Machine κ) : Prop where
  | quiet (h : Greeting m' c) (said : Io.dialogue m'.trace = Io.dialogue m.trace)
  | rejected (live : (m'.conn .client).live = false) (proto : (m'.conn .client).proto = .socks5 c)
      (said : Io.dialogue m'.trace = Io.dialogue m.trace
        ∨ ∃ r, Io.dialogue m'.trace = Io.dialogue m.trace ++ [.recv .client r])
  | failed (r : List Byte) (c' : TcpSocks5) (accepts : Accepts E c.state r)
      (live : (m'.conn .client).live = false) (proto : (m'.conn .client).proto = .socks5 c')
      (state : c'.state = c.state)
      (said : Io.dialogue m.trace ++ [.recv .client r] <+: Io.dialogue m'.trace)
  | answered (r : List Byte) (c' : TcpSocks5) (accepts : Accepts E c.state r) (h : Greeting m' c')
      (state : c'.state = (reply c).2)
      (dest : c.state = .HANDSHAKE → ∃ addr uninit, Requests E.inet r addr
        ∧ c'.addrbufDest = .created (encodeAddr E.inet uninit (.ofBuf addr.host) addr.port))
      (said : Io.dialogue m'.trace
        = Io.dialogue m.trace ++ [.recv .client r, .send .client (reply c).1])

section

variable {m : Machine κ} {E : Env κ} {c : TcpSocks5}

theorem live_closed (m : Machine κ) (s : Side) : ((m.closed s).conn .client).live = false := by
  rw [Machine.closed, Machine.conn_freed, if_neg (by simp)]
  rfl

theorem proto_closed (m : Machine κ) (s : Side)
    : ((m.closed s).conn .client).proto = (m.conn .client).proto := by
  rw [Machine.closed, Machine.conn_freed, if_neg (by simp)]
  rfl

theorem Greeting.wp_reply (h : Greeting m c) {resp : List Byte} {next : Socks5State} (hresp : resp ≠ [])
    {Q : Int → Machine κ → Prop} {F : Fault → Machine κ → Prop}
    (hfull : ∀ n m', Greeting m' { c with state := next }
      → Io.dialogue m'.trace = Io.dialogue m.trace ++ [.send .client resp] → Q n m')
    (hshort : ∀ n m', (m'.conn .client).live = false → (m'.conn .client).proto = .socks5 c
      → Io.dialogue m.trace <+: Io.dialogue m'.trace → Q n m')
    (hpart : ∀ n : Nat, m.netWrite resp.length = n → n < resp.length → ∀ f m', F f m')
    : wp (tcpSocks5ConnWrite.reply .client resp next) Q F m := by
  have hclient := h.alive.client
  have hsent : ∀ data, Greeting (m.sent .client data) c := fun data =>
    ⟨by simpa using h.alive, h.remote, h.absent, h.proto, h.flags, h.connected, h.re, h.rbufLen, h.rbufOff,
      by simpa [Machine.sent] using h.unpiped⟩
  have hsaid : ∀ data, Io.dialogue (m.sent .client data).trace
      = Io.dialogue m.trace ++ Io.dialogue [.send .client data] := by
    intro data
    rw [← Io.dialogue_append]
    rfl
  have hprefix : ∀ data, Io.dialogue m.trace <+: Io.dialogue (m.sent .client data).trace :=
    fun data => ⟨_, (hsaid data).symm⟩
  rw [tcpSocks5ConnWrite.reply, wp_bind, wp_tcpWrite h.alive hclient, Machine.netWrite]
  dsimp only
  rcases netTcpWrite_cases resp.length (m.inp.writes.headD []) with heq | ⟨n, hn, heq⟩
  . rw [heq, if_pos rfl, if_pos (by decide), wp_pure]
    refine hshort _ _ (live_closed _ _) ?_ ?_
    . rw [proto_closed]
      simpa [Machine.withErr, Machine.sent] using h.proto
    . rw [Io.dialogue_closed]
      exact hprefix _
  . rw [heq, if_neg (by rw [ERR]; omega), if_neg (by omega), Int.toNat_natCast]
    split
    . rw [wp_failed (hsent _).alive (hsent _).alive.client]
      split
      . exact hpart n heq (by omega) _ _
      . refine hshort _ _ (live_closed _ _) ?_ ?_
        . rw [proto_closed]
          exact (hsent _).proto
        . rw [Io.dialogue_closed]
          exact hprefix _
    . next hall =>
      have hlen : n = resp.length := by omega
      rw [hlen, List.take_length, wp_bind, wp_assignSocks5 (hsent _).alive.client (hsent _).proto, wp_pure]
      refine hfull _ _ ((hsent _).setSocks5 h.flags) ?_
      have hspoken : Io.dialogue [.send .client resp] = [.send .client resp] := by
        simp [Io.dialogue, Io.spoken, hresp]
      rw [← hspoken]
      exact hsaid _

theorem Greeting.wp_answer (h : Greeting m c) (hstate : c.state ≠ .STREAM) {nread : Int} (hpos : 0 < nread)
    {Q : Unit → Machine κ → Prop} {F : Fault → Machine κ → Prop}
    (hfull : ∀ m', Greeting m' { c with state := (reply c).2 }
      → Io.dialogue m'.trace = Io.dialogue m.trace ++ [.send .client (reply c).1] → Q () m')
    (hshort : ∀ m', (m'.conn .client).live = false → (m'.conn .client).proto = .socks5 c
      → Io.dialogue m.trace <+: Io.dialogue m'.trace → Q () m')
    (hpart : ∀ n : Nat, m.netWrite (reply c).1.length = n → n < (reply c).1.length → ∀ f m', F f m')
    : wp (answer E nread) Q F m := by
  have hclient := h.alive.client
  rw [answer, if_pos hpos, wp_bind, wp_deref hclient, wp_bind, connWrite, wp_bind, wp_deref hclient, wp_bind,
    wp_logIo, h.proto]
  dsimp only
  have hlog : Greeting (m.log (.write .client nread)) c :=
    ⟨by simpa using h.alive, h.remote, h.absent, h.proto, h.flags, h.connected, h.re, h.rbufLen, h.rbufOff,
      by simpa using h.unpiped⟩
  have hsaid : Io.dialogue (m.log (.write .client nread)).trace = Io.dialogue m.trace := by
    simp [Io.dialogue, Io.spoken]
  have hwrite : ∀ n, (m.log (.write .client nread)).netWrite n = m.netWrite n := fun _ => rfl
  rw [tcpSocks5ConnWrite, wp_bind, wp_derefSocks5 hlog.alive.client hlog.proto, h.flags, if_neg (by simp)]
  generalize m.log (.write .client nread) = m₁ at *
  have hreply : wp (tcpSocks5ConnWrite.reply .client (reply c).1 (reply c).2)
      (fun _ => wp (pure () : Proc κ Unit) Q F) F m₁ := by
    apply hlog.wp_reply
    . unfold reply
      split <;> simp [authResp, socks5Resp]
    . intro n m' hm' hm'said
      exact hfull m' hm' (by rw [hm'said, hsaid])
    . intro n m' hlive hproto hm'said
      exact hshort m' hlive hproto (by rwa [hsaid] at hm'said)
    . intro n hn
      rw [hwrite] at hn
      exact hpart n hn
  unfold reply at hreply
  cases hc : c.state with
  | INIT => simpa [hc] using hreply
  | HANDSHAKE => simpa [hc] using hreply
  | STREAM => contradiction

theorem Greeting.wp_outcome (happ : E.app = .xsLocal) (h : Greeting m c) (hstate : c.state ≠ .STREAM)
    : wp (handler E .client .read) (fun _ => Outcome E c m) (fun _ _ => True) m := by
  have hclient := h.alive.client
  have hsaid : ∀ r, Io.dialogue (replying m r).trace = Io.dialogue m.trace ++ Io.dialogue [.recv .client r] := by
    intro r
    rw [← Io.dialogue_append]
    rfl
  have hproto : ∀ r err, (((m.received .client 0 r).withErr .client err).conn .client).proto = .socks5 c := by
    intro r err
    simpa [Machine.withErr, Machine.received] using h.proto
  rcases netTcpRead_cases NET_IOBUF_LEN (m.inp.reads.headD []) with heq | heq | heq | ⟨r, hr, hlen, heq⟩
  . rw [h.wp_read happ hstate, wp_tcpSocks5ConnRead h.alive hclient h.proto h.flags, Machine.netRead, heq]
    dsimp only
    rw [if_pos rfl, answer, if_neg (by decide), wp_pure]
    refine .rejected (live_closed _ _) ?_ (.inl ?_)
    . rw [proto_closed, hproto]
    . rw [Io.dialogue_closed]
      exact (hsaid []).trans (List.append_nil _)
  . rw [h.wp_read happ hstate, wp_tcpSocks5ConnRead h.alive hclient h.proto h.flags, Machine.netRead, heq]
    dsimp only
    rw [if_neg (by decide), if_pos (by simp), answer, if_neg (by decide), wp_pure]
    refine .rejected (live_closed _ _) ?_ (.inl ?_)
    . rw [proto_closed, hproto]
    . rw [Io.dialogue_closed]
      exact (hsaid []).trans (List.append_nil _)
  . rw [h.wp_read happ hstate, wp_tcpSocks5ConnRead h.alive hclient h.proto h.flags, Machine.netRead, heq]
    dsimp only
    rw [if_neg (by decide), if_neg (by simp), if_pos (by decide), answer, if_neg (by decide), wp_pure]
    exact .quiet (h.received []) ((hsaid []).trans (List.append_nil _))
  . have hpos : (0 : Int) < r.length := by
      have := List.length_pos_iff.mpr hr
      omega
    have hspoken : Io.dialogue [.recv .client r] = [.recv .client r] := by
      simp [Io.dialogue, Io.spoken, hr]
    have hsaid := hsaid r
    rw [hspoken] at hsaid
    have hreject : ∀ err, Outcome E c m (((replying m r).withErr .client err).closed .client) := by
      intro err
      refine .rejected (live_closed _ _) ?_ (.inr ⟨r, ?_⟩)
      . rw [proto_closed]
        simpa [Machine.withErr] using (h.received r).proto
      . rw [Io.dialogue_closed]
        exact hsaid
    rw [wp_message happ h hstate hr heq, MessagePost]
    cases hc : c.state with
    | INIT =>
      dsimp only
      split
      . next hauth =>
        have haccepts : Accepts E c.state r := by
          rw [hc]
          exact authAccepted_iff_selects.mp hauth
        apply (h.received r).wp_answer hstate hpos
        . intro m' hm' hm'said
          refine .answered r _ haccepts hm' rfl (by simp [hc]) ?_
          rw [hm'said, hsaid, List.append_assoc]
          rfl
        . intro m' hlive hproto hm'said
          rw [hsaid] at hm'said
          exact .failed r c haccepts hlive hproto rfl hm'said
        . exact fun _ _ _ _ _ => trivial
      . rw [answer, if_neg (by decide), wp_pure]
        exact hreject _
    | HANDSHAKE =>
      dsimp only
      split
      . rw [answer, if_neg (by decide), wp_pure]
        exact hreject _
      . next addr hreq =>
        have hrequests := requested_iff_requests.mp hreq
        have haccepts : Accepts E c.state r := by
          rw [hc]
          exact ⟨addr, hrequests⟩
        have hset := fun dest => (h.received r).setSocks5
          (show (⟨c.flags, .HANDSHAKE, dest⟩ : TcpSocks5).flags = .SERVER from h.flags)
        apply (hset _).wp_answer (by simp) hpos
        . intro m' hm' hm'said
          refine .answered r _ haccepts hm' ?_ (fun _ => ⟨addr, _, hrequests, rfl⟩) ?_
          . simp [reply, hc]
          . have hreply : reply c = (socks5Resp, .STREAM) := by simp [reply, hc]
            have hsaid' : Io.dialogue m'.trace
                = Io.dialogue (replying m r).trace ++ [.send .client socks5Resp] := hm'said
            rw [hsaid', hsaid, hreply, List.append_assoc]
            rfl
        . intro m' hlive hproto hm'said
          have hsaid' : Io.dialogue (replying m r).trace <+: Io.dialogue m'.trace := hm'said
          rw [hsaid] at hsaid'
          exact .failed r _ haccepts hlive hproto hc.symm hsaid'
        . exact fun _ _ _ _ _ => trivial
    | STREAM => contradiction

end

structure Proper (E : Env κ) (c : TcpSocks5) (m : Machine κ) : Prop where
  phase : m.Phase E
  proto : (m.conn .client).proto = .socks5 c
  agreed : (m.conn .client).live = true → Agreed E c m
  greeting : (m.conn .client).live = true → c.state ≠ .STREAM → Greeting m c

structure Turn (E : Env κ) (c : TcpSocks5) (m m' : Machine κ) : Prop where
  next : ∃ c', (m'.conn .client).proto = .socks5 c'
    ∧ (c'.state = c.state ∨ c.state = .INIT ∧ c'.state = .HANDSHAKE
      ∨ c.state = .HANDSHAKE ∧ c'.state = .STREAM)
  rejected : c.state ≠ .STREAM → ∀ r rest,
    Io.dialogue m'.trace = Io.dialogue m.trace ++ .recv .client r :: rest → ¬Accepts E c.state r
    → (m'.conn .client).live = false ∧ (m'.conn .client).proto = .socks5 c ∧ rest = []

section

variable {m m' : Machine κ} {E : Env κ} {c : TcpSocks5}

theorem Outcome.turn (h : Outcome E c m m') : Turn E c m m' := by
  cases h with
  | quiet h said =>
    refine ⟨⟨c, h.proto, .inl rfl⟩, ?_⟩
    intro _ r rest hsaid
    simp [said] at hsaid
  | rejected live proto said =>
    refine ⟨⟨c, proto, .inl rfl⟩, ?_⟩
    intro _ r rest hsaid _
    refine ⟨live, proto, ?_⟩
    rcases said with said | ⟨r', said⟩
    . simp [said] at hsaid
    . rw [said, List.append_cancel_left_eq, List.cons.injEq] at hsaid
      exact hsaid.2.symm
  | failed r' c' accepts live proto state said =>
    refine ⟨⟨c', proto, .inl state⟩, ?_⟩
    intro _ r rest hsaid hnot
    rw [hsaid, List.prefix_append_right_inj, List.cons_prefix_cons, Io.recv.injEq] at said
    rw [said.1.2] at accepts
    contradiction
  | answered r' c' accepts h state dest said =>
    refine ⟨⟨c', h.proto, ?_⟩, ?_⟩
    . rw [state, reply]
      cases c.state <;> simp
    . intro _ r rest hsaid hnot
      rw [said, List.append_cancel_left_eq, List.cons.injEq, Io.recv.injEq] at hsaid
      rw [hsaid.1.2] at accepts
      contradiction

theorem Outcome.proper (h : Outcome E c m m') (hm : Agreed E c m) (hstate : c.state ≠ .STREAM)
    (hphase : m'.Phase E)
    : ∃ c', Proper E c' m' := by
  have hclosed : ∀ c', (m'.conn .client).live = false → (m'.conn .client).proto = .socks5 c'
      → Proper E c' m' := by
    intro c' hlive hproto
    refine ⟨hphase, hproto, fun h => ?_, fun h => ?_⟩
    . rw [hlive] at h
      contradiction
    . rw [hlive] at h
      contradiction
  unfold Agreed at hm
  cases h with
  | quiet h said =>
    refine ⟨c, hphase, h.proto, fun _ => ?_, fun _ _ => h⟩
    unfold Agreed
    rw [said]
    cases hc : c.state with
    | INIT =>
      rw [hc] at hm
      exact ⟨hm.1, h.remote⟩
    | HANDSHAKE =>
      rw [hc] at hm
      obtain ⟨r, hr, hsaid, -⟩ := hm
      exact ⟨r, hr, hsaid, h.remote⟩
    | STREAM => contradiction
  | rejected live proto said => exact ⟨c, hclosed c live proto⟩
  | failed r' c' accepts live proto state said => exact ⟨c', hclosed c' live proto⟩
  | answered r' c' accepts h state dest said =>
    refine ⟨c', hphase, h.proto, fun _ => ?_, fun _ _ => h⟩
    unfold Agreed
    rw [state, reply]
    cases hc : c.state with
    | INIT =>
      rw [hc] at hm accepts
      rw [hm.1, reply, if_pos hc] at said
      exact ⟨r', accepts, said, h.remote⟩
    | HANDSHAKE =>
      obtain ⟨addr, uninit, hreq, haddr⟩ := dest hc
      rw [hc] at hm
      obtain ⟨r, hr, hsaid, -⟩ := hm
      rw [hsaid, reply, if_neg (by simp [hc])] at said
      refine ⟨r, r', addr, uninit, _, hr, hreq, ?_, socks5AddrInit_eq _ _ _, haddr⟩
      rw [said]
      exact List.prefix_rfl
    | STREAM => contradiction

theorem Agreed.stream (h : Agreed E c m) (hstate : c.state = .STREAM) (htrace : m.trace <+: m'.trace)
    : Agreed E c m' := by
  unfold Agreed at h ⊢
  rw [hstate] at h ⊢
  obtain ⟨r, r', addr, uninit, bytes, hr, hreq, hsaid, hinit, haddr⟩ := h
  refine ⟨r, r', addr, uninit, bytes, hr, hreq, hsaid.trans ?_, hinit, haddr⟩
  exact htrace.filter _

theorem Greeting.outcome (happ : E.app = .xsLocal) (h : Greeting m c) (hphase : m.Phase E)
    (hstate : c.state ≠ .STREAM) {s : Side} {r : Ready} (hreg : (m.conn s).registered r = true)
    : wp (handler E s r) (fun _ => Outcome E c m) (fun _ _ => True) m := by
  cases s with
  | remote =>
    have hlive := hphase.live_of_registered hreg
    rw [h.absent.live] at hlive
    contradiction
  | client =>
    cases r with
    | read => exact h.wp_outcome happ hstate
    | write =>
      rw [TcpConn.registered, (hphase.handshaking h.alive.client.live h.remote).we] at hreg
      contradiction
    | timeout =>
      rw [handler, wp_tcpConnTimeoutHandler h.alive h.alive.client]
      refine .rejected (live_closed _ _) ?_ (.inl ?_)
      . rw [proto_closed]
        simpa [Machine.withErr] using h.proto
      . rw [Io.dialogue_closed]
        rfl

theorem Proper.step (happ : E.app = .xsLocal) (h : Proper E c m) {a : (Side × Ready) × Inputs κ}
    (heq : pairStep E m a = .ok m')
    : Turn E c m m' ∧ ∃ c', Proper E c' m' := by
  rcases a with ⟨⟨s, r⟩, inp⟩
  by_cases hreg : (m.conn s).registered r = true
  . have hphase : (m.withInp inp).Phase E := h.phase.congr rfl rfl rfl
    have hlive : (m.conn .client).live = true := by
      have hlive := h.phase.live_of_registered hreg
      cases s with
      | client => exact hlive
      | remote => exact (h.phase.remote_live_iff.mp hlive).1
    have hreached : (m.withInp inp).Reached E m' := by
      refine post_of_pairStep hreg ?_ heq
      exact wp_mono (hphase.wp_handler s r hreg) (fun _ _ h => h) fun _ _ _ => trivial
    by_cases hstate : c.state = .STREAM
    . have hproto : (m'.conn .client).proto = .socks5 c :=
        (hreached.1.stream c h.proto hstate).trans h.proto
      refine ⟨⟨⟨c, hproto, .inl rfl⟩, fun hne => absurd hstate hne⟩, c, hreached.2, hproto, fun _ => ?_, ?_⟩
      . exact (h.agreed hlive).stream hstate hreached.1.trace
      . exact fun _ hne => absurd hstate hne
    . have houtcome : Outcome E c (m.withInp inp) m' :=
        post_of_pairStep hreg (((h.greeting hlive hstate).withInp inp).outcome happ hphase hstate hreg) heq
      have hturn := houtcome.turn
      exact ⟨⟨hturn.next, hturn.rejected⟩, houtcome.proper (h.agreed hlive) hstate hreached.2⟩
  . rw [pairStep, if_neg hreg, Except.ok.injEq] at heq
    subst heq
    refine ⟨⟨⟨c, h.proto, .inl rfl⟩, ?_⟩, c, h⟩
    intro _ r rest hsaid
    simp at hsaid

theorem proper_accepted (E : Env κ) (inp : Inputs κ)
    : Proper E ⟨.SERVER, .INIT, .pointer inp.tail⟩ (.accepted E .SOCKS5 inp) := by
  have hphase : (TcpServer.new.machine .absent inp |>.addClient (.new (.new .SOCKS5 inp) true E.timeout)
      |>.upd .client fun c => { c with re := true }).Phase E :=
    .inl (TcpServer.handshaking_addClient inp .SOCKS5)
  refine ⟨hphase.congr ?_ rfl rfl, rfl, fun _ => ⟨rfl, rfl⟩, fun _ _ => ?_⟩
  . funext s
    cases s <;> rfl
  . exact greeting_accepted E inp

end

end Local

/--
The handshake of a client of xs-local. As long as the connection is open, its state tells what was read and
written: nothing in `INIT`, an offer of `NOAUTH` and the answer to it in `HANDSHAKE`, and in `STREAM` also a
`CONNECT` request, whose destination is in `addrbuf_dest`, and the answer to it; before `STREAM` there is no
remote. Each event leaves the state or leads to the next one, and bytes that are not the expected message
close the connection in the state it is in.
-/
theorem socks5_handshake {E : Env κ} (happ : E.app = .xsLocal) {inp : Inputs κ}
    {as : List ((Side × Ready) × Inputs κ)} {m : Machine κ}
    (hrun : run (pairStep E) (.accepted E .SOCKS5 inp) as = .ok m)
    : ∃ c, (m.conn .client).proto = .socks5 c
        ∧ ((m.conn .client).live = true → Local.Agreed E c m)
        ∧ ∀ a m', pairStep E m a = .ok m' → Local.Turn E c m m' := by
  have hproper : ∃ c, Local.Proper E c m := by
    refine invariant_run (C := fun _ _ => True) (I := fun m => ∃ c, Local.Proper E c m) ?_
      ⟨_, Local.proper_accepted E inp⟩ (along_true _ _ as) hrun
    intro m a m' ⟨c, h⟩ _ heq
    exact (h.step happ heq).2
  obtain ⟨c, h⟩ := hproper
  exact ⟨c, h.proto, h.agreed, fun a m' heq => (h.step happ heq).1⟩

def Proto.streaming : Proto κ → Bool
  | .socks5 c => decide (c.state = .STREAM)
  | _ => false

theorem socks5_handshake_localhost
    : let E : Env Unit := .default .xsLocal .copy .text
      let read := fun r => ((Side.client, Ready.read), arrival (.idle ()) .zero 10 r)
      ∃ m c, run (pairStep E) (.accepted E .SOCKS5 (.idle ()))
          [read [5, 1, 0], read [5, 1, 0, 1, 127, 0, 0, 1, 0, 80]] = .ok m
        ∧ (m.conn .client).proto = .socks5 c ∧ c.state = .STREAM ∧ Local.Agreed E c m
        ∧ ∀ a m', pairStep E m a = .ok m' → Local.Turn E c m m' := by
  intro E read
  obtain ⟨m, hrun, hlive, hstream⟩ := exists_ok_of_eval
    (r := run (pairStep E) (.accepted E .SOCKS5 (.idle ()))
      [read [5, 1, 0], read [5, 1, 0, 1, 127, 0, 0, 1, 0, 80]])
    (fun m => (m.conn .client).live = true
      ∧ (m.conn .client).proto.streaming = true)
    (by decide +kernel)
  obtain ⟨c, hproto, hagreed, hturn⟩ := socks5_handshake (E := E) rfl hrun
  rw [hproto, Proto.streaming, decide_eq_true_eq] at hstream
  exact ⟨m, c, hrun, hproto, hstream, hagreed hlive, hturn⟩

end Xsocks
