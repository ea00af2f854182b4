import Xsocks.Tcp.Lemmas.HandshakeSafety
import Xsocks.Tcp.Lemmas.Persistent

/-!
This module contains the proof that `tcpClientOnError` finds an error to report, unless a reply of the
SOCKS5 handshake is written in part.
-/

namespace Xsocks

open Wp Run

variable {κ : Type}

/-- There is no error at the client and no remote whose error could be taken instead. -/
def Machine.Uncaused (m : Machine κ) : Prop :=
  m.remote = false ∧ (m.conn .client).err = .none

instance (m : Machine κ) : Decidable m.Uncaused :=
  inferInstanceAs (Decidable (_ ∧ _))

def NonNull (f : Fault) (_ : Machine κ) : Prop :=
  f ≠ .nullDeref

def Unreported (f : Fault) (m : Machine κ) : Prop :=
  f = .nullDeref ∧ m.Uncaused

instance (f : Fault) (m : Machine κ) : Decidable (Unreported f m) :=
  inferInstanceAs (Decidable (_ ∧ _))

section

variable {E : Env κ} {m : Machine κ}

theorem NonNull.not_unreported {f : Fault} (h : NonNull f m) : ¬Unreported f m :=
  fun hnone => h hnone.1

theorem not_unreported_of_linked {f : Fault} (h : m.remote = true) : ¬Unreported f m := by
  intro hnone
  rw [hnone.2.1] at h
  contradiction

theorem fireError_client (h : m.Alive)
    : wp (fireError .client) (fun _ _ => ¬m.Uncaused) (fun f m' => Unreported f m' ∧ m.Uncaused) m := by
  rw [wp_fireError h h.client]
  split
  . next hnone => exact ⟨⟨rfl, hnone.2, hnone.1⟩, hnone.2, hnone.1⟩
  . next hcause => exact fun huncaused => hcause ⟨huncaused.2, huncaused.1⟩

theorem wp_connRead_client (h : m.Alive) (off : Nat) (bufLen : Int)
    : wp (connRead E .client off bufLen) (fun _ _ => True) NonNull m := by
  rw [connRead, wp_bind, wp_deref h.client]
  split
  . rw [wp_tcpRead h h.client]
    dsimp only
    split
    . trivial
    . split <;> trivial
  . next ss hproto =>
    rw [wp_tcpShadowsocksConnRead h h.client hproto]
    dsimp only
    split
    . trivial
    . split
      . trivial
      . split
        . trivial
        . unfold DecryptPost
          split
          . simp [NonNull]
          . split
            . dsimp only [ParsePost]
              split
              . split <;> trivial
              . trivial
            . trivial
  . next s5 hproto =>
    cases hflags : s5.flags with
    | SERVER =>
      rw [wp_tcpSocks5ConnRead h h.client hproto hflags]
      dsimp only
      split
      . trivial
      . split
        . trivial
        . split
          . trivial
          . unfold MessagePost
            split
            . split <;> trivial
            . split <;> trivial
            . trivial
    | CLIENT =>
      rw [tcpSocks5ConnRead, wp_bind, wp_derefSocks5 h.client hproto, if_pos hflags, wp_bind,
        wp_setErr h.client, wp_failed_withErr h h.client (by simp)]
      trivial

structure Machine.Dialled (m : Machine κ) : Prop where
  alive : m.Alive
  remote : m.remote = true

def Remoteless (E : Env κ) {α : Type} (x : Proc κ α) (Q : α → Machine κ → Prop) : Prop :=
  Triple (Machine.Handshaking E) x Q NonNull

variable {α β : Type} {x : Proc κ α} {f : α → Proc κ β}

theorem remoteless_parseDest {addrbufDest : List Byte}
    : Remoteless E (parseDest E addrbufDest) fun _ => Machine.Handshaking E := by
  unfold parseDest
  split
  . exact Triple.pure fun _ h => h
  . exact Triple.throw fun _ _ => by simp [NonNull]

theorem remoteless_isBypass {ip : CString}
    : Remoteless E (isBypass E ip) fun _ => Machine.Handshaking E := by
  by_cases hacl : E.acl = true
  . exact fun m h => wp_isBypass hacl ip fun _ => h
  . unfold isBypass aclMatchHost
    rw [if_neg hacl]
    refine Triple.bind (Q := fun _ _ => False) ?_ fun _ _ h => h.elim
    exact Triple.throw fun _ _ => by simp [NonNull]

theorem remoteless_tcpConnectionFree
    : Remoteless E tcpConnectionFree fun _ m => (m.conn .client).live = false := by
  intro m h
  rw [wp_tcpConnectionFree h.intact.alive, Machine.conn_freed, if_neg (by simp)]
  rfl

def Taken (m : Machine κ) : Prop :=
  (m.conn .client).live = true → m.remote = true

theorem remoteless_tcpRemoteNew {type : ConnType} {host : CString} {port : Nat} {x : Bool → Proc κ Unit}
    (hok : Triple Machine.Dialled (x true) (fun _ m => m.remote = true)
      NonNull)
    (herr : x false = tcpConnectionFree)
    : Remoteless E (tcpRemoteNew E type host port >>= x) fun _ => Taken := by
  intro m h
  rw [wp_bind, wp_tcpRemoteNew h.usable]
  split
  . refine wp_mono (hok _ ⟨Machine.alive_dialled h.usable, Machine.remote_dialled⟩) ?_
      fun _ _ hF => hF
    exact fun _ _ hremote _ => hremote
  . rw [herr]
    have hlog : (m.log (.connect host port)).Alive := by simpa using h.intact.alive
    rw [wp_tcpConnectionFree hlog]
    intro hlive
    rw [Machine.conn_freed, if_neg (by simp)] at hlive
    contradiction

theorem dialled_remote_pure
    : Triple Machine.Dialled (pure () : Proc κ Unit) (fun _ m => m.remote = true)
        NonNull :=
  Triple.pure fun _ h => h.remote

theorem dialled_remote_init {host : CString} {port : Nat}
    : Triple Machine.Dialled
        (tcpShadowsocksConnInit E .remote host port) (fun _ m => m.remote = true)
        NonNull := by
  intro m h
  rw [tcpShadowsocksConnInit, wp_bind, wp_get]
  split
  . rw [assignShadowsocks, wp_assign (h.alive.remote h.remote)]
    exact h.remote
  . simp [NonNull]

theorem remoteless_local_newRemote {addrbufDest : List Byte}
    : Remoteless E (Local.newRemote E (.created addrbufDest)) fun _ => Taken := by
  unfold Local.newRemote
  apply Triple.bind remoteless_parseDest
  intro addr
  refine Triple.bind (Q := fun _ => Machine.Handshaking E) (fun m h => Local.wp_bypass _ _ fun _ => h) ?_
  intro bypass
  split
  . exact remoteless_tcpRemoteNew dialled_remote_pure rfl
  . exact remoteless_tcpRemoteNew dialled_remote_init rfl

theorem remoteless_redir_onAccept : Remoteless E (Redir.onAccept E) fun _ => Taken := by
  apply Triple.bind Triple.get
  intro m
  split
  . apply Triple.mono remoteless_tcpConnectionFree (fun _ h => h)
    intro _ m' hdead hlive
    rw [hdead] at hlive
    contradiction
  . apply Triple.bind remoteless_isBypass
    intro bypass
    split
    . exact remoteless_tcpRemoteNew dialled_remote_pure rfl
    . exact remoteless_tcpRemoteNew dialled_remote_init rfl

theorem remoteless_server_newRemote {nread : Int}
    : Remoteless E (Server.newRemote E nread) fun _ _ => True := by
  refine Triple.bind (Q := fun _ => Machine.Handshaking E) ?_ ?_
  . intro m h
    rw [derefShadowsocks, wp_bind, wp_deref h.usable]
    split
    . exact h
    . simp [NonNull]
  . intro ss
    apply Triple.bind remoteless_parseDest
    intro addr
    dsimp only
    split
    . exact Triple.mono remoteless_tcpConnectionFree (fun _ h => h) fun _ _ _ => trivial
    . refine Triple.mono (remoteless_tcpRemoteNew ?_ rfl) (fun _ h => h) fun _ _ _ => trivial
      intro m h
      rw [if_neg (by simp), wp_assign h.alive.client]
      exact h.remote

theorem remoteless_server_tcpClientOnRead
    : Remoteless E (Server.tcpClientOnRead E) fun _ _ => True := by
  intro m h
  rw [Server.tcpClientOnRead, wp_bind, wp_deref h.usable, wp_bind, wp_get, if_pos h.remote, wp_bind]
  have halive := h.intact.alive
  have hread := wp_and (wp_connRead_client (E := E) halive 0 (m.conn .client).rbufLen)
    (replies_connRead halive m Machine.framed_refl)
  refine wp_mono hread ?_ fun _ _ hF => hF.1
  intro nread m' ⟨_, hm'⟩
  split
  . next hpos =>
    rcases hm' with ⟨-, hm'⟩ | ⟨rfl, -⟩
    . exact remoteless_server_newRemote m' (h.framed hm')
    . contradiction
  . trivial

namespace Local

/-- If the client has sent the next message, then the answer is written in full or not at all. -/
def Answers (E : Env κ) (c : TcpSocks5) (m : Machine κ) : Prop :=
  accepts E c (m.netRead NET_IOBUF_LEN).data = true
    → m.netWrite (reply c).1.length = ERR ∨ m.netWrite (reply c).1.length = (reply c).1.length

instance (c : TcpSocks5) : Decidable (Answers E c m) :=
  inferInstanceAs (Decidable (_ → _))

variable {c : TcpSocks5}

theorem Greeting.wp_answered (happ : E.app = .xsLocal) (h : Greeting m c) (hstate : c.state ≠ .STREAM)
    (hanswers : Answers E c m)
    : wp (handler E .client .read) (fun _ _ => True) NonNull m := by
  rcases netTcpRead_cases NET_IOBUF_LEN (m.inp.reads.headD []) with heq | heq | heq | ⟨r, hr, hlen, heq⟩
  . rw [h.wp_read happ hstate, wp_tcpSocks5ConnRead h.alive h.alive.client h.proto h.flags, Machine.netRead,
      heq]
    dsimp only
    rw [if_pos rfl, answer, if_neg (by decide)]
    trivial
  . rw [h.wp_read happ hstate, wp_tcpSocks5ConnRead h.alive h.alive.client h.proto h.flags, Machine.netRead,
      heq]
    dsimp only
    rw [if_neg (by decide), if_pos (by simp), answer, if_neg (by decide)]
    trivial
  . rw [h.wp_read happ hstate, wp_tcpSocks5ConnRead h.alive h.alive.client h.proto h.flags, Machine.netRead,
      heq]
    dsimp only
    rw [if_neg (by decide), if_neg (by simp), if_pos (by decide), answer, if_neg (by decide)]
    trivial
  . have hpos : (0 : Int) < r.length := by
      have := List.length_pos_iff.mpr hr
      omega
    have hpart : accepts E c r = true → ∀ n : Nat, m.netWrite (reply c).1.length = n
        → n < (reply c).1.length → ∀ f m', NonNull f (m' : Machine κ) := by
      intro haccepts n hn hlt
      rw [Answers, Machine.netRead, heq, hn] at hanswers
      rcases hanswers haccepts with herr | hall
      . rw [ERR] at herr
        omega
      . omega
    rw [wp_message happ h hstate hr heq, MessagePost]
    cases hc : c.state with
    | INIT =>
      dsimp only
      split
      . next hauth =>
        apply (h.received r).wp_answer hstate hpos
        . exact fun _ _ _ => trivial
        . exact fun _ _ _ _ => trivial
        . exact hpart (by simpa [accepts, hc] using hauth)
      . rw [answer, if_neg (by decide)]
        trivial
    | HANDSHAKE =>
      dsimp only
      split
      . rw [answer, if_neg (by decide)]
        trivial
      . next addr hreq =>
        have hreply : ∀ dest, reply ⟨c.flags, .HANDSHAKE, dest⟩ = reply c := by
          intro dest
          simp [reply, hc]
        have hset := fun dest => (h.received r).setSocks5
          (show (⟨c.flags, .HANDSHAKE, dest⟩ : TcpSocks5).flags = .SERVER from h.flags)
        apply (hset _).wp_answer (by simp) hpos
        . exact fun _ _ _ => trivial
        . exact fun _ _ _ _ => trivial
        . rw [hreply]
          exact hpart (by simp [accepts, hc, hreq])
    | STREAM => contradiction

theorem Proper.wp_newRemote (happ : E.app = .xsLocal) (h : Proper E c m) (hm : m.Handshaking E)
    (hstate : c.state = .STREAM)
    : wp (handler E .client .read) (fun _ _ => True) NonNull m := by
  have hagreed := h.agreed hm.usable.live
  rw [Agreed, hstate] at hagreed
  obtain ⟨_, _, _, _, bytes, _, _, _, _, hdest⟩ := hagreed
  rw [wp_handler happ hm.usable hm.connected, Local.tcpClientOnRead, wp_bind, wp_deref hm.usable, wp_bind,
    wp_derefSocks5 hm.usable h.proto, if_neg (by simp [hstate]), wp_bind, wp_get, if_pos hm.remote, hdest]
  exact wp_mono (remoteless_local_newRemote m hm) (fun _ _ _ => trivial) fun _ _ hF => hF

theorem Proper.congr {m' : Machine κ} (h : Proper E c m) (hconn : m'.conn = m.conn)
    (hremote : m'.remote = m.remote) (htrace : m'.trace = m.trace)
    : Proper E c m' := by
  have hphase := h.phase.congr hconn hremote htrace
  obtain ⟨conn, remote, _, _, _, trace⟩ := m
  obtain ⟨conn', remote', _, _, _, trace'⟩ := m'
  simp only at hconn hremote htrace
  subst hconn hremote htrace
  refine ⟨hphase, h.proto, h.agreed, fun hlive hstate => ?_⟩
  have hm := h.greeting hlive hstate
  exact ⟨⟨⟨hm.alive.client.live, by simp⟩, fun hr => ⟨(hm.alive.remote hr).live, fun _ => hr⟩⟩, hm.remote,
    hm.absent, hm.proto, hm.flags, hm.connected, hm.re, hm.rbufLen, hm.rbufOff, hm.unpiped⟩

end Local

end

namespace Machine

structure Watched (E : Env κ) (m : Machine κ) : Prop where
  phase : m.Phase E
  socks5 : E.app = .xsLocal → (m.conn .client).live = true → ∃ c, Local.Proper E c m
  taken : E.app = .xsRedir → Taken m

/-- The condition on an event of a client of xs-local: a reply is not written in part. -/
def Answers (E : Env κ) (s : Side) (r : Ready) (m : Machine κ) : Prop :=
  E.app = .xsLocal → s = .client → r = .read →
    match (m.conn .client).proto with
    | .socks5 c => c.state ≠ .STREAM → Local.Answers E c m
    | _ => True

instance (E : Env κ) (s : Side) (r : Ready) (m : Machine κ) : Decidable (m.Answers E s r) :=
  have : Decidable (match (m.conn .client).proto with
      | .socks5 c => c.state ≠ .STREAM → Local.Answers E c m
      | _ => True) :=
    match (m.conn .client).proto with
    | .socks5 c => inferInstanceAs (Decidable (c.state ≠ .STREAM → Local.Answers E c m))
    | .shadowsocks _ => .isTrue trivial
    | .raw => .isTrue trivial
  inferInstanceAs (Decidable (_ → _ → _ → _))

variable {E : Env κ} {m : Machine κ} {s : Side} {r : Ready}

theorem Watched.live (h : m.Watched E) (hreg : (m.conn s).registered r = true)
    : (m.conn .client).live = true := by
  have hlive := h.phase.live_of_registered hreg
  cases s with
  | client => exact hlive
  | remote => exact (h.phase.remote_live_iff.mp hlive).1

theorem Watched.wp_reported (h : m.Watched E) (hreg : (m.conn s).registered r = true)
    (hanswers : m.Answers E s r)
    : wp (handler E s r) (fun _ _ => True) (fun f m' => ¬Unreported f m') m := by
  cases hremote : m.remote with
  | true =>
    exact wp_mono (preserves_handler persistent_remote m hremote) (fun _ _ _ => trivial)
      fun _ _ h => not_unreported_of_linked h
  | false =>
    have hlive := h.live hreg
    have hm := h.phase.handshaking hlive hremote
    suffices wp (handler E s r) (fun _ _ => True) NonNull m from
      wp_mono this (fun _ _ h => h) fun _ _ h => h.not_unreported
    cases s with
    | remote =>
      rw [(hm.intact.absent hremote).not_registered (hm.intact.lost .remote)] at hreg
      contradiction
    | client =>
      cases r with
      | write =>
        rw [TcpConn.registered, hm.we] at hreg
        contradiction
      | timeout =>
        rw [handler, wp_tcpConnTimeoutHandler hm.intact.alive hm.usable]
        trivial
      | read =>
        cases happ : E.app with
        | xsLocal =>
          obtain ⟨c, hc⟩ := h.socks5 happ hlive
          by_cases hstate : c.state = .STREAM
          . exact hc.wp_newRemote happ hm hstate
          . have hanswers := hanswers happ rfl rfl
            rw [hc.proto] at hanswers
            exact (hc.greeting hlive hstate).wp_answered happ hstate (hanswers hstate)
        | xsServer =>
          have hread : tcpClientOnRead E = Server.tcpClientOnRead E := by rw [tcpClientOnRead, happ]
          rw [handler, wp_tcpConnReadHandler hm.usable hm.connected, wp_fireRead_client hm.usable, hread]
          exact remoteless_server_tcpClientOnRead m hm
        | xsRedir =>
          rw [h.taken happ hlive] at hremote
          contradiction

theorem Over.watched (h : m.Over) (hphase : m.Phase E) : m.Watched E := by
  have hdead := (h.dead .client).live
  refine ⟨hphase, fun _ hlive => ?_, fun _ hlive => ?_⟩
  . rw [hdead] at hlive
    contradiction
  . rw [hdead] at hlive
    contradiction

theorem Watched.wp_handler (h : m.Watched E) (hreg : (m.conn s).registered r = true)
    : wp (handler E s r) (fun _ => Watched E) (fun f m' => f = .useAfterFree → m'.Watched E) m := by
  have hphase := h.phase.wp_handler s r hreg
  have hlive := h.live hreg
  have hlinks : m.remote = true → _ := preserves_handler (E := E) (s := s) (r := r) persistent_remote m
  unfold wp at hphase hlinks ⊢
  split
  . next m' heq =>
    rw [heq] at hphase hlinks
    refine ⟨hphase.2, fun happ _ => ?_, fun happ _ => hlinks (h.taken happ hlive)⟩
    obtain ⟨c, hc⟩ := h.socks5 happ hlive
    have hstep : pairStep E m ((s, r), m.inp) = .ok m' := by
      have hinp : m.withInp m.inp = m := rfl
      rw [pairStep, if_pos hreg, exec, hinp, heq]
    exact (hc.step happ hstep).2
  . next f m' heq =>
    rw [heq] at hphase
    intro hf
    obtain ⟨left, hbroken⟩ := hphase
    have hover := hbroken.ended hf
    exact hover.watched (.inr ⟨left, .inr (.inr ⟨hover, hbroken.story⟩)⟩)

theorem Watched.congr {m' : Machine κ} (h : m.Watched E) (hconn : m'.conn = m.conn)
    (hremote : m'.remote = m.remote) (htrace : m'.trace = m.trace)
    : m'.Watched E := by
  refine ⟨h.phase.congr hconn hremote htrace, ?_, ?_⟩
  . intro happ hlive
    rw [hconn] at hlive
    obtain ⟨c, hc⟩ := h.socks5 happ hlive
    exact ⟨c, hc.congr hconn hremote htrace⟩
  . intro happ hlive
    rw [hconn] at hlive
    rw [hremote]
    exact h.taken happ hlive

end Machine

namespace TcpServer

variable {E : Env κ} {srv : TcpServer κ}

/-- The handler that the event runs is not left at a remote that is not there. -/
def Reports (E : Env κ) (srv : TcpServer κ) (a : Event × Inputs κ) : Prop :=
  srv.crashed = false →
    match a.1 with
    | .accept =>
      wp (tcpServerOnAccept E) (fun _ _ => True) (fun f m => ¬Unreported f m) (srv.machine .absent a.2)
    | .ready i s r =>
      ∀ p ∈ srv.pairs[i]?, (p.conn s).registered r = true
        → wp (handler E s r) (fun _ _ => True) (fun f m => ¬Unreported f m) (srv.machine p a.2)

/-- The condition on a step: no reply of the SOCKS5 handshake of xs-local is written in part. -/
def Answers (E : Env κ) (srv : TcpServer κ) (a : Event × Inputs κ) : Prop :=
  match a.1 with
  | .ready i s r =>
    ∀ p ∈ srv.pairs[i]?, (p.conn s).registered r = true → (srv.machine p a.2).Answers E s r
  | .accept => True

instance (srv : TcpServer κ) : ∀ a, Decidable (srv.Reports E a)
  | (.accept, _) => inferInstanceAs (Decidable (_ → wp _ _ _ _))
  | (.ready i _ _, _) => inferInstanceAs (Decidable (_ → ∀ p ∈ srv.pairs[i]?, _ → wp _ _ _ _))

instance (srv : TcpServer κ) : ∀ a, Decidable (srv.Answers E a)
  | (.accept, _) => .isTrue trivial
  | (.ready i _ _, _) => inferInstanceAs (Decidable (∀ p ∈ srv.pairs[i]?, _ → _))

def Watched (E : Env κ) (srv : TcpServer κ) : Prop :=
  srv.crashed = false → ∀ p ∈ srv.pairs, ∀ inp, (srv.machine p inp).Watched E

theorem watched_machine {p : Pair κ} {inp : Inputs κ} (h : (srv.machine p inp).Watched E)
    (srv' : TcpServer κ) (inp' : Inputs κ)
    : (srv'.machine p inp').Watched E :=
  h.congr rfl rfl rfl

theorem Watched.exec (h : srv.Watched E) (hcrashed : srv.crashed = false) {i : Nat} {x : Proc κ Unit}
    {inp : Inputs κ}
    (hx : ∀ p, srv.pairs[i]? = some p
      → wp x (fun _ => Machine.Watched E) (fun f m => f = .useAfterFree → m.Watched E) (srv.machine p inp))
    : (srv.exec i x inp).Watched E := by
  -- The client `i` is left in the state `m`, the others are as they were.
  have hstore : ∀ m : Machine κ, m.Watched E → ∀ p ∈ (srv.store i m).pairs, ∀ inp,
      ((srv.store i m).machine p inp).Watched E := by
    intro m hm p hp inp
    rcases List.mem_or_eq_of_mem_set hp with hp | rfl
    . exact watched_machine (h hcrashed p hp inp) _ _
    . exact hm.congr rfl rfl rfl
  unfold TcpServer.exec
  split
  . exact h
  . next p hp =>
    have hx := hx p hp
    rw [wp] at hx
    split at hx
    . next m hm =>
      rw [hm]
      exact fun _ => hstore m hx
    . next f m hm =>
      rw [hm]
      intro hrunning p hp inp
      have hf : f = .useAfterFree := by
        simp only [TcpServer.fault, Bool.or_eq_false_iff, bne_eq_false_iff_eq] at hrunning
        exact hrunning.2
      exact watched_machine (hstore m (hx hf) p hp inp) _ _

theorem proper_accepted (happ : E.app = .xsLocal) (inp : Inputs κ)
    : Local.Proper E ⟨.SERVER, .INIT, .pointer inp.tail⟩
        (((srv.machine .absent inp).addClient (.new (.new E.app.clientType inp) true E.timeout)).upd .client
          fun c => { c with re := true }) := by
  rw [happ]
  apply (Local.proper_accepted E inp).congr
  . funext s
    cases s <;> rfl
  . rfl
  . rfl

theorem wp_tcpServerOnAccept_watched (inp : Inputs κ)
    : wp (tcpServerOnAccept E) (fun _ => Machine.Watched E)
        (fun f m => NonNull f m ∧ (f = .useAfterFree → m.Watched E)) (srv.machine .absent inp) := by
  let m₁ := ((srv.machine .absent inp).addClient (.new (.new E.app.clientType inp) true E.timeout)).upd .client
    fun c => { c with re := true }
  have hm₁ : m₁.Handshaking E := handshaking_addClient inp _
  have hrest : wp (tcpServerOnAccept E)
      (fun _ m => (E.app = .xsLocal → ∃ c, Local.Proper E c m) ∧ (E.app = .xsRedir → Taken m)) NonNull
      (srv.machine .absent inp) := by
    rw [tcpServerOnAccept_clientType, wp_bind, wp_modify, wp_bind, addEventRead, wp_assign ⟨rfl, by simp⟩]
    change wp _ _ _ m₁
    cases happ : E.app with
    | xsLocal => exact ⟨fun _ => ⟨_, proper_accepted happ inp⟩, by simp⟩
    | xsServer => exact ⟨by simp, by simp⟩
    | xsRedir =>
      refine wp_mono (remoteless_redir_onAccept m₁ hm₁) ?_ fun _ _ hF => hF
      exact fun _ _ htaken => ⟨by simp, fun _ => htaken⟩
  obtain ⟨_, -, hreached⟩ := wp_tcpServerOnAccept_reached inp
  refine wp_mono (wp_and hreached hrest) ?_ ?_
  . rintro _ m ⟨hphase, hlocal, hredir⟩
    exact ⟨hphase.2, fun happ _ => hlocal happ, hredir⟩
  . rintro f m ⟨⟨left, hbroken⟩, hf⟩
    refine ⟨hf, fun hfree => ?_⟩
    have hover := hbroken.ended hfree
    exact hover.watched (.inr ⟨left, .inr (.inr ⟨hover, hbroken.story⟩)⟩)

theorem Watched.step (h : srv.Watched E) (a : Event × Inputs κ) : (srv.step E a).Watched E := by
  unfold TcpServer.step
  split
  . exact h
  . next hcrashed =>
    have hcrashed : srv.crashed = false := by simpa using hcrashed
    split
    . have hadd : Watched E { srv with pairs := srv.pairs ++ [Pair.absent] } := by
        intro _ p hp inp
        rcases List.mem_append.mp hp with hp | hp
        . exact watched_machine (h hcrashed p hp inp) _ _
        . rw [List.mem_singleton.mp hp]
          refine Machine.Over.watched ⟨?_, ?_, ?_⟩ (phase_absent inp)
          . exact fun _ => ⟨rfl, rfl, rfl, rfl⟩
          . exact fun _ => rfl
          . exact fun _ => Nat.zero_le _
      apply hadd.exec hcrashed
      intro p hp
      simp only [List.getElem?_concat_length, Option.some.injEq] at hp
      rw [← hp]
      exact wp_mono (wp_tcpServerOnAccept_watched a.2) (fun _ _ h => h) fun _ _ hF => hF.2
    . next i s r hevent =>
      split
      . exact h
      . next p hp =>
        split
        . next hreg =>
          apply h.exec hcrashed
          intro p' hp'
          rw [hp] at hp'
          simp only [Option.some.injEq] at hp'
          subst hp'
          exact (h hcrashed p (List.mem_of_getElem? hp) a.2).wp_handler hreg
        . exact h

theorem Watched.reports (h : srv.Watched E) {a : Event × Inputs κ} (ha : srv.Answers E a)
    : srv.Reports E a := by
  intro hcrashed
  split
  . exact wp_mono (wp_tcpServerOnAccept_watched a.2) (fun _ _ _ => trivial) fun _ _ hF => hF.1.not_unreported
  . next i s r hevent =>
    intro p hp hreg
    rw [Answers, hevent] at ha
    exact (h hcrashed p (List.mem_of_getElem? hp) a.2).wp_reported hreg (ha p hp hreg)

end TcpServer

/--
`FIRE_ERROR` on a client fails exactly if there is no error to report, and then the handler that has called it
is left with `NULL` for the remote. As long as no reply of the SOCKS5 handshake is written in part, this happens
in no run of a server.
-/
theorem error_cause (E : Env κ)
    : (∀ m : Machine κ, m.Alive
        → ((∃ m', fireError .client m = .error .nullDeref m' ∧ m'.Uncaused) ↔ m.Uncaused))
        ∧ ∀ as, Along (TcpServer.next E) (TcpServer.Answers E) .new as
            → Along (TcpServer.next E) (TcpServer.Reports E) .new as := by
  refine ⟨?_, ?_⟩
  . intro m h
    have hfire := fireError_client h
    unfold wp at hfire
    split at hfire
    . next heq =>
      rw [heq]
      simp [hfire]
    . next f m' heq =>
      obtain ⟨⟨rfl, hm'⟩, hm⟩ := hfire
      rw [heq]
      exact ⟨fun _ => hm, fun _ => ⟨m', rfl, hm'⟩⟩
  . intro as has
    apply has.of_invariant (I := TcpServer.Watched E)
    . intro srv a srv' h _ heq
      rw [TcpServer.next, Except.ok.injEq] at heq
      rw [← heq]
      exact h.step a
    . exact fun srv a h ha => h.reports ha
    . simp [TcpServer.Watched, TcpServer.new]

def offerEvents (n : Nat) : List (Event × Inputs Unit) :=
  [
    (.accept, .idle ()),
    (.ready 0 .client .read, { Inputs.idle () with reads := [[.data [5, 1, 0]]], writes := [[.count n]] })
  ]

theorem error_cause_rejected
    : let E : Env Unit := .default .xsLocal .copy .text
      let as := offerEvents 2 ++ [(.ready 0 .client .read, { Inputs.idle () with reads := [[.data [4]]] })]
      Along (TcpServer.next E) (TcpServer.Reports E) .new as
        ∧ ∃ m', fireError .client (.accepted E .SOCKS5 (.idle ())) = .error .nullDeref m' ∧ m'.Uncaused := by
  intro E as
  obtain ⟨hfire, hruns⟩ := error_cause E
  exact ⟨hruns as (by decide +kernel), (hfire _ (Machine.alive_accepted _ _ _)).mpr ⟨rfl, rfl⟩⟩

/-- One of two bytes of the answer is accepted, and there is no error for `tcpClientOnError`. -/
theorem error_without_cause
    : ¬Along (TcpServer.next (.default .xsLocal .copy .text)) (TcpServer.Reports (.default .xsLocal .copy .text))
        .new (offerEvents 1) := by
  decide +kernel

end Xsocks
