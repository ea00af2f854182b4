import Xsocks.Tcp.Lemmas.Dial

/-!
This module contains what holds of all clients of a server whenever the event loop is reached: the
counters are right, and every client that is there can be woken up.
-/

namespace Xsocks

open Wp Run

variable {κ : Type}

namespace Pair

def live (p : Pair κ) : Bool :=
  (p.conn .client).live

/-- The client has not been freed, and `client->remote` is not `NULL`. -/
def linked (p : Pair κ) : Bool :=
  p.live && p.remote

def remoteLive (p : Pair κ) : Bool :=
  (p.conn .remote).live

end Pair

def Io.Unrefused (tr : List Io) : Prop :=
  ∃ left, Story left tr ∧ .onConnect .remote ERR ∉ tr

namespace Machine

structure Starts (m m₁ : Machine κ) : Prop where
  clients : m₁.clientCount - m₁.clients = m.clientCount - m.clients
  remotes : m₁.remoteCount - m₁.remotes = m.remoteCount - m.remotes
  frees : Io.frees m₁.trace + m₁.clients ≤ 1

end Machine

namespace TcpServer

variable {E : Env κ} {srv : TcpServer κ}

theorem engaged_machine {p : Pair κ} {inp : Inputs κ} {left : List Byte}
    (h : (srv.machine p inp).Engaged E left) (srv' : TcpServer κ) (inp' : Inputs κ)
    : (srv'.machine p inp').Engaged E left :=
  h.congr rfl rfl rfl

theorem phase_machine {p : Pair κ} {inp : Inputs κ} (h : (srv.machine p inp).Phase E)
    (srv' : TcpServer κ) (inp' : Inputs κ)
    : (srv'.machine p inp').Phase E :=
  h.congr rfl rfl rfl

structure Orderly (E : Env κ) (srv : TcpServer κ) : Prop where
  clients : srv.clientCount = srv.pairs.countP Pair.live
  remotes : srv.remoteCount = srv.pairs.countP Pair.linked
  frees : ∀ p ∈ srv.pairs, Io.frees p.trace + (if p.live then 1 else 0) ≤ 1
  phase : ∀ p ∈ srv.pairs,
    (∃ inp, (srv.machine p inp).Phase E) ∨ (srv.crashed = true ∧ Io.Unrefused p.trace)

theorem clients_machine (p : Pair κ) (inp : Inputs κ)
    : (srv.machine p inp).clients = if p.live then 1 else 0 := by
  rfl

theorem remotes_machine (p : Pair κ) (inp : Inputs κ)
    : (srv.machine p inp).remotes = if p.linked then 1 else 0 := by
  unfold Machine.remotes Pair.linked
  simp only [Bool.and_eq_true]
  rfl

theorem Orderly.store (h : srv.Orderly E) {i : Nat} {p : Pair κ} (hp : srv.pairs[i]? = some p)
    {inp : Inputs κ} {m₁ m : Machine κ} (hm₁ : (srv.machine p inp).Starts m₁) (hm : m₁.Follows m)
    (hphase : m.Phase E ∨ (srv.crashed = true ∧ Io.Unrefused m.trace))
    : (srv.store i m).Orderly E := by
  have hfrees : (Io.frees m.trace : Int) + m.clients ≤ 1 := by
    rw [hm.frees]
    exact hm₁.frees
  constructor
  case clients =>
    have hset := countP_set_int hp ⟨m.conn, m.remote, m.trace⟩ Pair.live
    have hclients := hm.clients.trans hm₁.clients
    rw [clients_machine] at hclients
    have hcount := h.clients
    have hmc : m.clients = if (⟨m.conn, m.remote, m.trace⟩ : Pair κ).live then 1 else 0 := rfl
    have hsc : (srv.machine p inp).clientCount = srv.clientCount := rfl
    show m.clientCount = _
    simp only [TcpServer.store]
    omega
  case remotes =>
    have hset := countP_set_int hp ⟨m.conn, m.remote, m.trace⟩ Pair.linked
    have hremotes := hm.remotes.trans hm₁.remotes
    rw [remotes_machine] at hremotes
    have hcount := h.remotes
    have hmr : (srv.machine ⟨m.conn, m.remote, m.trace⟩ inp).remotes
        = if (⟨m.conn, m.remote, m.trace⟩ : Pair κ).linked then 1 else 0 := remotes_machine _ inp
    change m.remotes = _ at hmr
    have hsr : (srv.machine p inp).remoteCount = srv.remoteCount := rfl
    show m.remoteCount = _
    simp only [TcpServer.store]
    omega
  case frees =>
    intro p' hp'
    rcases List.mem_or_eq_of_mem_set hp' with hp' | rfl
    . exact h.frees p' hp'
    . have hmc : m.clients = if (⟨m.conn, m.remote, m.trace⟩ : Pair κ).live then 1 else 0 := rfl
      dsimp only
      split at hmc <;> simp only [*, if_true, Bool.false_eq_true, if_false] <;> omega
  case phase =>
    intro p' hp'
    rcases List.mem_or_eq_of_mem_set hp' with hp' | rfl
    . rcases h.phase p' hp' with ⟨inp', hphase'⟩ | hended
      . exact .inl ⟨inp', phase_machine hphase' _ _⟩
      . exact .inr hended
    . rcases hphase with hphase | hended
      . have hphase : ((srv.store i m).machine ⟨m.conn, m.remote, m.trace⟩ m.inp).Phase E := hphase
        exact .inl ⟨m.inp, hphase⟩
      . exact .inr hended

theorem Orderly.fault (h : srv.Orderly E) (f : Fault) : (srv.fault f).Orderly E where
  clients := h.clients
  remotes := h.remotes
  frees := h.frees
  phase p hp := by
    rcases h.phase p hp with ⟨inp, hphase⟩ | ⟨hcrashed, hended⟩
    . exact .inl ⟨inp, phase_machine hphase _ _⟩
    . exact .inr ⟨by simp [TcpServer.fault, hcrashed], hended⟩

theorem Orderly.exec (h : srv.Orderly E) {i : Nat} {x : Proc κ Unit} {inp : Inputs κ}
    (hx : ∀ p, srv.pairs[i]? = some p → ∃ m₁, (srv.machine p inp).Starts m₁
      ∧ wp x (fun _ => m₁.Reached E) m₁.Fallen (srv.machine p inp))
    : (srv.exec i x inp).Orderly E := by
  unfold TcpServer.exec
  split
  . exact h
  . next p hp =>
    obtain ⟨m₁, hm₁, hx⟩ := hx p hp
    rw [wp] at hx
    split at hx
    . next m hm =>
      rw [hm]
      exact h.store hp hm₁ hx.1 (.inl hx.2)
    . next f m hm =>
      obtain ⟨left, hx⟩ := hx
      rw [hm]
      by_cases hf : f = .useAfterFree
      . apply Orderly.fault
        exact h.store hp hm₁ hx.follows (.inl (.inr ⟨left, .inr (.inr ⟨hx.ended hf, hx.story⟩)⟩))
      . -- The process ends.
        have hcrashed : (srv.fault f).crashed = true := by simp [TcpServer.fault, hf]
        have hstarts : ((srv.fault f).machine p inp).Starts m₁ := hm₁
        have hfault : ((srv.fault f).store i m).Orderly E :=
          (h.fault f).store hp hstarts hx.follows (.inr ⟨hcrashed, left, hx.story, hx.not_refused hf⟩)
        exact hfault

theorem handshaking_addClient (inp : Inputs κ) (type : ConnType)
    : (((srv.machine .absent inp).addClient (.new (.new type inp) true E.timeout)).upd .client
        fun c => { c with re := true }).Handshaking E where
  intact := (intact_addClient inp type).upd ⟨rfl, by simp⟩ ⟨fun _ => rfl, fun _ => rfl, fun _ h => h⟩
  remote := rfl
  connected := rfl
  re := rfl
  we := rfl
  pipe := rfl
  rbufOff := rfl
  early := by simp [TcpServer.machine, Pair.absent, Machine.addClient]

theorem tcpServerOnAccept_clientType : tcpServerOnAccept E = (do
    modify fun m => m.addClient (.new (.new E.app.clientType m.inp) true E.timeout)
    addEventRead .client
    match E.app with
    | .xsRedir => Redir.onAccept E
    | _ => return) := rfl

theorem wp_tcpServerOnAccept_reached (inp : Inputs κ)
    : ∃ m₁, (srv.machine .absent inp).Starts m₁
        ∧ wp (tcpServerOnAccept E) (fun _ => m₁.Reached E) m₁.Fallen (srv.machine .absent inp) := by
  let m₁ := (srv.machine .absent inp).addClient (.new (.new E.app.clientType inp) true E.timeout)
  have hstarts : (srv.machine .absent inp).Starts m₁ := by
    constructor
    case clients =>
      simp [m₁, Machine.clients, Machine.addClient, TcpServer.machine, Pair.absent, TcpConn.absent,
        TcpConn.new]
    case remotes => simp [m₁, Machine.remotes, Machine.addClient, TcpServer.machine, Pair.absent]
    case frees =>
      simp [m₁, Machine.clients, Machine.addClient, TcpServer.machine, Pair.absent, TcpConn.new, Io.frees]
  have hclient : m₁.Usable .client := ⟨rfl, by simp⟩
  refine ⟨m₁, hstarts, ?_⟩
  rw [tcpServerOnAccept_clientType, wp_bind, wp_modify]
  change wp _ _ _ m₁
  rw [wp_bind, addEventRead, wp_assign hclient]
  refine (?_ : Triple (m₁.Waits E) _ _ m₁.Fallen) _
    ⟨Machine.follows_upd (fun _ => rfl) fun _ => rfl, handshaking_addClient inp _⟩
  split
  . next happ => exact waits_redir_onAccept (by simp [happ])
  . exact waits_pure

theorem orderly_new : Orderly E (.new : TcpServer κ) :=
  ⟨rfl, rfl, by simp [TcpServer.new], by simp [TcpServer.new]⟩

theorem phase_absent (inp : Inputs κ) : (srv.machine .absent inp).Phase E := by
  refine .inr ⟨[], .inr (.inr ⟨⟨?_, ?_, ?_⟩, .early (by simp [TcpServer.machine, Pair.absent])⟩)⟩
  . exact fun _ => ⟨rfl, rfl, rfl, rfl⟩
  . exact fun _ => rfl
  . exact fun _ => Nat.zero_le _

theorem Orderly.absent (h : srv.Orderly E) (inp : Inputs κ)
    : Orderly E { srv with pairs := srv.pairs ++ [Pair.absent] } where
  clients := by
    rw [List.countP_append]
    exact h.clients
  remotes := by
    rw [List.countP_append]
    exact h.remotes
  frees p hp := by
    rcases List.mem_append.mp hp with hp | hp
    . exact h.frees p hp
    . rw [List.mem_singleton.mp hp]
      simp [Pair.absent, Pair.live, TcpConn.absent, Io.frees]
  phase p hp := by
    rcases List.mem_append.mp hp with hp | hp
    . rcases h.phase p hp with ⟨inp, hphase⟩ | hended
      . exact .inl ⟨inp, phase_machine hphase _ _⟩
      . exact .inr hended
    . rw [List.mem_singleton.mp hp]
      exact .inl ⟨inp, phase_absent inp⟩

theorem Orderly.starts (h : srv.Orderly E) {p : Pair κ} (hp : p ∈ srv.pairs) (inp : Inputs κ)
    : (srv.machine p inp).Starts (srv.machine p inp) := by
  refine ⟨rfl, rfl, ?_⟩
  have hfrees := h.frees p hp
  rw [clients_machine]
  show (Io.frees p.trace : Int) + _ ≤ 1
  split at hfrees <;> simp only [*, if_true, Bool.false_eq_true, if_false] <;> omega

theorem Orderly.step (h : srv.Orderly E) (a : Event × Inputs κ) : (srv.step E a).Orderly E := by
  unfold TcpServer.step
  split
  . exact h
  . next hcrashed =>
    split
    . apply (h.absent a.2).exec
      intro p hp
      simp only [List.getElem?_concat_length, Option.some.injEq] at hp
      rw [← hp]
      exact wp_tcpServerOnAccept_reached _
    . next i s r hevent =>
      split
      . exact h
      . next p hp =>
        split
        . next hreg =>
          apply h.exec
          intro p' hp'
          rw [hp] at hp'
          simp only [Option.some.injEq] at hp'
          subst hp'
          rcases h.phase p (List.mem_of_getElem? hp) with ⟨inp, hphase⟩ | ⟨hcrashed', -⟩
          . have hphase := phase_machine hphase srv a.2
            exact ⟨_, h.starts (List.mem_of_getElem? hp) a.2, hphase.wp_handler s r hreg⟩
          . contradiction
        . exact h

theorem orderly_run {as : List (Event × Inputs κ)} (hrun : run (TcpServer.next E) .new as = .ok srv)
    : srv.Orderly E := by
  refine invariant_run (C := fun _ _ => True) ?_ orderly_new (along_true _ _ as) hrun
  intro srv a srv' h _ heq
  rw [TcpServer.next, Except.ok.injEq] at heq
  rw [← heq]
  exact h.step a

theorem Orderly.phase_of_running (h : srv.Orderly E) (hcrashed : srv.crashed = false) {p : Pair κ}
    (hp : p ∈ srv.pairs)
    : ∃ inp, (srv.machine p inp).Phase E := by
  rcases h.phase p hp with hphase | ⟨hcrashed', -⟩
  . exact hphase
  . rw [hcrashed] at hcrashed'
    contradiction

end TcpServer

namespace Machine

variable {E : Env κ} {m : Machine κ}

theorem Phase.over_or_awake (h : m.Phase E)
    : m.Over
        ∨ m.Intact E ∧ ((m.conn .client).re = true ∨ m.remote = true ∧ (m.conn .remote).we = true) := by
  rcases h with h | ⟨left, h | h | h⟩
  . exact .inr ⟨h.intact, .inl h.re⟩
  . exact .inr ⟨h.intact, .inr ⟨h.remote, h.weRemote⟩⟩
  . rcases h.flow .client with hre | hwe
    . exact .inr ⟨h.intact, .inl hre⟩
    . exact .inr ⟨h.intact, .inr ⟨h.remote, hwe⟩⟩
  . exact .inl h.ended

theorem Phase.live_of_registered (h : m.Phase E) {s : Side} {r : Ready}
    (hreg : (m.conn s).registered r = true)
    : (m.conn s).live = true := by
  rcases h.over_or_awake with h | ⟨h, -⟩
  . rw [h.not_registered s r] at hreg
    contradiction
  . exact h.live_of_registered hreg

theorem Phase.remote_live_iff (h : m.Phase E)
    : (m.conn .remote).live = true ↔ (m.conn .client).live = true ∧ m.remote = true := by
  rcases h.over_or_awake with h | ⟨h, -⟩
  . rw [(h.dead .client).live, (h.dead .remote).live]
    simp
  . constructor
    . intro hlive
      refine ⟨h.alive.client.live, ?_⟩
      cases hremote : m.remote with
      | false =>
        rw [(h.absent hremote).live] at hlive
        contradiction
      | true => rfl
    . exact fun hlive => (h.alive.remote hlive.2).live

end Machine

/--
Whenever the event loop of a server is reached, `client_count` is the number of the clients that have been
accepted and not been freed, and `remote_count` the number of those with a remote, which are the remotes
that have not been freed. No client has been freed twice.
-/
theorem connection_accounting {E : Env κ} {as : List (Event × Inputs κ)} {srv : TcpServer κ}
    (hrun : run (TcpServer.next E) .new as = .ok srv) (hcrashed : srv.crashed = false)
    : srv.clientCount = srv.pairs.countP Pair.live
        ∧ srv.remoteCount = srv.pairs.countP Pair.linked
        ∧ srv.remoteCount = srv.pairs.countP Pair.remoteLive
        ∧ 0 ≤ srv.clientCount ∧ 0 ≤ srv.remoteCount
        ∧ (∀ p ∈ srv.pairs, p.remoteLive = true → p.live = true ∧ p.remote = true)
        ∧ ∀ p ∈ srv.pairs, Io.frees p.trace ≤ 1 := by
  have h := TcpServer.orderly_run hrun
  have hlinked : ∀ p ∈ srv.pairs, p.remoteLive = true ↔ p.live = true ∧ p.remote = true := by
    intro p hp
    obtain ⟨inp, hphase⟩ := h.phase_of_running hcrashed hp
    exact hphase.remote_live_iff
  have hcount : srv.pairs.countP Pair.linked = srv.pairs.countP Pair.remoteLive := by
    apply List.countP_congr
    intro p hp
    rw [hlinked p hp, Pair.linked, Bool.and_eq_true]
  have hclients := h.clients
  have hremotes := h.remotes
  refine ⟨hclients, hremotes, by rw [← hcount, hremotes], by omega, by omega, fun p hp => (hlinked p hp).mp, ?_⟩
  intro p hp
  have := h.frees p hp
  omega

/--
Two clients of xs-server: the remote of the first is connected and gets one of its two bytes only, the
second waits for its remote.
-/
def twoClients : List (Event × Inputs Unit) :=
  connectEvents 1
    ++ [(.accept, .idle ()),
      (.ready 1 .client .read, { Inputs.idle () with reads := [[.data [1, 127, 0, 0, 1, 0, 80]]] })]

theorem connection_accounting_two_clients
    : ∃ srv, run (TcpServer.next (.default .xsServer .copy .text)) .new twoClients = .ok srv
        ∧ (srv.clientCount = 1 ∧ srv.remoteCount = 1)
        ∧ srv.clientCount = srv.pairs.countP Pair.live
        ∧ srv.remoteCount = srv.pairs.countP Pair.linked
        ∧ srv.remoteCount = srv.pairs.countP Pair.remoteLive
        ∧ 0 ≤ srv.clientCount ∧ 0 ≤ srv.remoteCount
        ∧ (∀ p ∈ srv.pairs, p.remoteLive = true → p.live = true ∧ p.remote = true)
        ∧ ∀ p ∈ srv.pairs, Io.frees p.trace ≤ 1 := by
  obtain ⟨srv, hrun, hcrashed, hcounts⟩ := exists_ok_of_eval
    (r := run (TcpServer.next (.default .xsServer .copy .text)) .new twoClients)
    (fun srv => srv.crashed = false ∧ srv.clientCount = 1 ∧ srv.remoteCount = 1) (by decide +kernel)
  exact ⟨srv, hrun, hcounts, connection_accounting hrun hcrashed⟩

/--
Whenever the event loop of a server is reached, every event in it belongs to a connection that has not been
closed, and every client that has not been freed has a read or write event in it, of its own connection or
of the one of its remote.
-/
theorem registrations {E : Env κ} {as : List (Event × Inputs κ)} {srv : TcpServer κ}
    (hrun : run (TcpServer.next E) .new as = .ok srv) (hcrashed : srv.crashed = false)
    : ∀ p ∈ srv.pairs,
        (∀ s r, (p.conn s).registered r = true → (p.conn s).live = true)
          ∧ (p.live = true → ∃ s r, r ≠ .timeout ∧ (p.conn s).registered r = true
              ∧ (s = .remote → p.remote = true)) := by
  intro p hp
  obtain ⟨inp, h⟩ := (TcpServer.orderly_run hrun).phase_of_running hcrashed hp
  refine ⟨fun s r hreg => h.live_of_registered hreg, ?_⟩
  intro hlive
  rcases h.over_or_awake with h | ⟨h, hre | ⟨hremote, hwe⟩⟩
  . have hdead := (h.dead .client).live
    rw [Pair.live] at hlive
    rw [TcpServer.machine, hlive] at hdead
    contradiction
  . exact ⟨.client, .read, by simp, hre, by simp⟩
  . exact ⟨.remote, .write, by simp, hwe, fun _ => hremote⟩

theorem registrations_two_clients
    : ∃ srv, run (TcpServer.next (.default .xsServer .copy .text)) .new twoClients = .ok srv
        ∧ srv.pairs.length = 2
        ∧ ∀ p ∈ srv.pairs,
            (∀ s r, (p.conn s).registered r = true → (p.conn s).live = true)
              ∧ (p.live = true → ∃ s r, r ≠ .timeout ∧ (p.conn s).registered r = true
                  ∧ (s = .remote → p.remote = true)) := by
  obtain ⟨srv, hrun, hcrashed, hlength⟩ := exists_ok_of_eval
    (r := run (TcpServer.next (.default .xsServer .copy .text)) .new twoClients)
    (fun srv => srv.crashed = false ∧ srv.pairs.length = 2) (by decide +kernel)
  exact ⟨srv, hrun, hlength, registrations hrun hcrashed⟩

end Xsocks
