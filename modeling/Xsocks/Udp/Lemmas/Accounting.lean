import Xsocks.Protocol.Lemmas.Crypto
import Xsocks.Udp.Lemmas.Session

/-!
This module contains what `remote_count` counts, and how often clients and remotes are freed.
-/

namespace Xsocks.Udp

open Wp Run

variable {κ : Type}

namespace Session

def clientLive (p : Session) : Bool :=
  p.client.live

def remoteLive (p : Session) : Bool :=
  p.client.conn.live

structure FreedOnce (p : Session) : Prop where
  client : p.trace.count .clientFree + p.clientLive.toNat ≤ 1
  remote : p.trace.count .remoteFree + p.remoteLive.toNat ≤ 1

end Session

namespace UdpServer

def asks (E : Env κ) (srv : UdpServer) (inp : Inputs) : Option Target :=
  match netUdpRead NET_IOBUF_LEN inp.recv with
  | none => none
  | some (_, data) =>
    if data = [] then none
    else
      match srv.conn.proto.unwrap E inp.uninit data with
      | none => none
      | some (_, proto) => E.target inp.uninit proto

def resolve (E : Env κ) (inp : Inputs) (t : Target) : Option SockAddr :=
  netUdpGetSockAddrEx E.ipv6First (inp.getaddrinfo t.host t.port) .unset

/-- If the event is a request and the socket for the remote is created, then its address is found. -/
def Resolves (E : Env κ) (srv : UdpServer) (a : Event × Inputs) : Prop :=
  a.1 = .request → a.2.create = true → ∀ t, srv.asks E a.2 = some t → resolve E a.2 t ≠ none

instance (E : Env κ) (srv : UdpServer) (a : Event × Inputs) : Decidable (srv.Resolves E a) :=
  decidable_of_iff
    (a.1 = .request → a.2.create = true → ∀ t ∈ (srv.asks E a.2).toList, (resolve E a.2 t).isSome = true)
    (by simp [Resolves, Option.isSome_iff_ne_none])

def RemoteFails (E : Env κ) (srv : UdpServer) (a : Event × Inputs) : Prop :=
  a.1 = .request ∧ ∃ t, srv.asks E a.2 = some t ∧ (a.2.create = false ∨ resolve E a.2 t = none)

/-- `remote_count` is the number of the remotes that are there, and nothing has been freed twice. -/
structure Accounted (srv : UdpServer) : Prop where
  remoteCount : srv.remoteCount = srv.sessions.countP Session.remoteLive
  clientFree : ∀ p ∈ srv.sessions, p.trace.count .clientFree ≤ 1
  remoteFree : ∀ p ∈ srv.sessions, p.trace.count .remoteFree ≤ 1

structure SameLive (srv srv' : UdpServer) : Prop where
  remoteCount : srv'.remoteCount = srv.remoteCount
  clients : ∀ i : Nat, srv'.sessions[i]?.any Session.clientLive = srv.sessions[i]?.any Session.clientLive
  remotes : ∀ i : Nat, srv'.sessions[i]?.any Session.remoteLive = srv.sessions[i]?.any Session.remoteLive

end UdpServer

namespace Machine

variable {E : Env κ} {m m' : Machine}

theorem Reads.count_free {r : Option (List Byte)} (h : m.Reads E .server r m') (htrace : m.trace = [])
    : m'.trace.count .clientFree = 0 ∧ m'.trace.count .remoteFree = 0 := by
  rcases h.trace_server with heq | ⟨sa, data, heq⟩
  . rw [heq, htrace]
    exact ⟨rfl, rfl⟩
  . rw [heq, htrace]
    simp

theorem Served.freedOnce (hnew : m.client = .new) (htrace : m.trace = []) (h : m.Served E m')
    : m'.session.FreedOnce := by
  have hdropped : ∀ {r m₁}, m.Reads E .server r m₁ → m₁.dropped.session.FreedOnce := by
    intro r m₁ hread
    obtain ⟨hclient, hremote⟩ := hread.count_free htrace
    have hlive : m₁.client.conn.live = false := by
      rw [hread.kept.conn, hnew]
      rfl
    constructor
    . simp [session, Session.clientLive, dropped, List.count_append, hclient]
    . simp [session, Session.remoteLive, dropped, List.count_append, hremote, hlive]
  cases h with
  | unread hread => exact hdropped hread
  | uncreated hread hcreate => exact hdropped hread
  | linked hread hcreate htarget hsa hwrite =>
    obtain ⟨hclient, hremote⟩ := hread.count_free htrace
    cases hwrite with
    | failed =>
      constructor
      . simp [session, Session.clientLive, closed, freed, List.count_append, hclient]
      . simp [session, Session.remoteLive, closed, freed, UdpConn.close, List.count_append, hremote]
    | sent =>
      constructor
      . simp [session, List.count_append, hclient, Bool.toNat_le]
      . simp [session, List.count_append, hremote, Bool.toNat_le]

theorem Served.remoteCount (hnew : m.client = .new) (h : m.Served E m')
    : m'.remoteCount = m.remoteCount + m'.session.remoteLive.toNat := by
  have hdropped : ∀ {r m₁}, m.Reads E .server r m₁
      → m₁.dropped.remoteCount = m.remoteCount + m₁.dropped.session.remoteLive.toNat := by
    intro r m₁ hread
    have hlive : m₁.dropped.session.remoteLive = false := by
      show m₁.client.conn.live = false
      rw [hread.kept.conn, hnew]
      rfl
    have hcount : m₁.dropped.remoteCount = m₁.remoteCount := rfl
    rw [hlive, hcount, hread.kept.remoteCount]
    simp
  cases h with
  | unread hread => exact hdropped hread
  | uncreated hread hcreate => exact hdropped hread
  | linked hread hcreate htarget hsa hwrite =>
    have hcount := hread.kept.remoteCount
    cases hwrite with
    | failed =>
      show _ + 1 - 1 = m.remoteCount + (0 : Nat)
      omega
    | sent =>
      show _ + 1 = m.remoteCount + (1 : Nat)
      omega

theorem freedOnce_freed (hclient : m.trace.count .clientFree = 0) (hremote : m.trace.count .remoteFree = 0)
    : m.freed.session.FreedOnce := by
  constructor
  . simp [session, Session.clientLive, freed, List.count_append, hclient]
  . simp [session, Session.remoteLive, freed, UdpConn.close, List.count_append, hremote]

theorem Answered.exists_freed (h : m.Answered E m')
    : ∃ m₁ : Machine, m' = m₁.freed ∧ m₁.remoteCount = m.remoteCount
        ∧ m₁.trace.count .clientFree = m.trace.count .clientFree
        ∧ m₁.trace.count .remoteFree = m.trace.count .remoteFree := by
  cases h with
  | unread hread =>
    cases hread with
    | error => exact ⟨_, rfl, rfl, rfl, rfl⟩
    | empty => exact ⟨_, rfl, rfl, by simp [List.count_append], by simp [List.count_append]⟩
    | garbled => exact ⟨_, rfl, rfl, by simp [List.count_append], by simp [List.count_append]⟩
  | answered hread hwrite =>
    cases hread with
    | plain =>
      cases hwrite with
      | failed =>
        exact ⟨_, rfl, rfl, by simp [closed, List.count_append], by simp [closed, List.count_append]⟩
      | sent => exact ⟨_, rfl, rfl, by simp [List.count_append], by simp [List.count_append]⟩

end Machine

namespace UdpServer

variable {E : Env κ} {srv srv' : UdpServer}

theorem asks_of_reads {inp : Inputs} {buf : List Byte} {m₁ : Machine}
    (h : (srv.machine .new inp).Reads E .server (some buf) m₁)
    : srv.asks E inp = E.target inp.uninit m₁.server.proto := by
  cases h with
  | @plain sa data _ proto hrecv hdata hplain =>
    have hrecv : inp.recv = .datagram sa data := hrecv
    have hplain : srv.conn.proto.unwrap E inp.uninit (data.take NET_IOBUF_LEN) = some (buf, proto) := hplain
    have hnil : ¬data.take NET_IOBUF_LEN = [] := by
      rw [List.take_eq_nil_iff, or_iff_right (by decide)]
      exact hdata
    rw [asks, hrecv, netUdpRead]
    dsimp only
    rw [if_neg hnil, hplain]
    rfl

structure Balanced (E : Env κ) (srv : UdpServer) : Prop extends srv.Ordered E where
  remoteCount : srv.remoteCount = srv.sessions.countP Session.remoteLive
  freedOnce : ∀ p ∈ srv.sessions, p.FreedOnce

theorem balanced_new : Balanced E (.new E) where
  toOrdered := ordered_new
  remoteCount := rfl
  freedOnce := by simp [new]

theorem Balanced.accounted (h : srv.Balanced E) : srv.Accounted where
  remoteCount := h.remoteCount
  clientFree p hp := by
    have := (h.freedOnce p hp).client
    omega
  remoteFree p hp := by
    have := (h.freedOnce p hp).remote
    omega

theorem Balanced.freed (h : srv.Balanced E) {i : Nat} {p : Session} (hp : srv.sessions[i]? = some p)
    (hwaiting : p.Waiting) {m : Machine} (hcount : m.remoteCount = srv.remoteCount)
    (hclient : m.trace.count .clientFree = p.trace.count .clientFree)
    (hremote : m.trace.count .remoteFree = p.trace.count .remoteFree)
    : (srv.store i m.freed).remoteCount = (srv.store i m.freed).sessions.countP Session.remoteLive
        ∧ ∀ p' ∈ (srv.store i m.freed).sessions, p'.FreedOnce := by
  have hlive : p.remoteLive = true := hwaiting.conn
  constructor
  . have hset := countP_set_int hp m.freed.session Session.remoteLive
    have hdead : m.freed.session.remoteLive = false := rfl
    have hsrv := h.remoteCount
    rw [hlive, hdead] at hset
    simp only [if_true, Bool.false_eq_true, if_false] at hset
    show m.remoteCount - 1 = ((srv.sessions.set i m.freed.session).countP Session.remoteLive : Int)
    omega
  . intro p' hp'
    rcases mem_store hp' with hp' | rfl
    . exact h.freedOnce p' hp'
    . obtain ⟨hclient', hremote'⟩ := h.freedOnce p (List.mem_of_getElem? hp)
      rw [hlive] at hremote'
      have hclientLive : p.clientLive = true := hwaiting.client
      rw [hclientLive] at hclient'
      simp only [Bool.toNat_true] at hclient' hremote'
      apply Machine.freedOnce_freed <;> omega

theorem not_resolves_of_orphans {a : Event × Inputs} (ha : a.1 = .request) {m : Machine}
    (h : (srv.machine .new a.2).Orphans E m)
    : ¬srv.Resolves E a := by
  cases h with
  | unresolved hread hcreate htarget hsa =>
    intro hresolves
    exact hresolves ha hcreate _ ((asks_of_reads hread).trans htarget) hsa

theorem Balanced.next (h : srv.Balanced E) {a : Event × Inputs} (hresolves : srv.Resolves E a)
    (hstep : srv.Steps E a srv')
    : srv'.Balanced E := by
  have hordered := h.toOrdered.next hstep
  cases hstep with
  | idle => exact h
  | mishap ha hm => exact absurd hresolves (not_resolves_of_orphans ha hm)
  | @request m ha hm =>
    refine ⟨hordered, ?_, ?_⟩
    . have hcount : m.remoteCount = srv.remoteCount + m.session.remoteLive.toNat := hm.remoteCount rfl
      have hsrv := h.remoteCount
      show m.remoteCount = ((srv.sessions ++ [m.session]).countP Session.remoteLive : Int)
      rw [List.countP_append, List.countP_singleton, hcount]
      cases m.session.remoteLive <;> simp [hsrv]
    . intro p hp
      rcases mem_add hp with hp | rfl
      . exact h.freedOnce p hp
      . exact hm.freedOnce rfl rfl
  | reply ha hp hwaiting hm =>
    obtain ⟨m₁, rfl, hcount, hclient, hremote⟩ := hm.exists_freed
    obtain ⟨hcounts, hfreed⟩ := h.freed hp hwaiting hcount hclient hremote
    exact ⟨hordered, hcounts, hfreed⟩
  | timeout ha hp hwaiting =>
    obtain ⟨hcounts, hfreed⟩ := h.freed hp hwaiting (m := srv.machine _ a.2) rfl rfl rfl
    exact ⟨hordered, hcounts, hfreed⟩

theorem balanced_run (hI : E.inet.Lawful) {as : List (Event × Inputs)}
    (has : Along (next E) (Resolves E) (.new E) as) (hrun : run (next E) (.new E) as = .ok srv)
    : srv.Balanced E := by
  refine invariant_run ?_ balanced_new has hrun
  intro srv a srv' h hresolves heq
  rw [UdpServer.next, Except.ok.injEq] at heq
  rw [← heq]
  exact h.next hresolves (h.toOrdered.steps hI a)

theorem sameLive_add {m : Machine} (hcount : m.remoteCount = srv.remoteCount)
    (hclient : m.session.clientLive = false) (hremote : m.session.remoteLive = false)
    : srv.SameLive (srv.add m) := by
  have hany : ∀ (q : Session → Bool), q m.session = false
      → ∀ i : Nat, (srv.add m).sessions[i]?.any q = srv.sessions[i]?.any q := by
    intro q hq i
    show (srv.sessions ++ [m.session])[i]?.any q = _
    rw [List.getElem?_append]
    split
    . rfl
    . next hle =>
      rw [List.getElem?_eq_none (Nat.le_of_not_lt hle)]
      cases i - srv.sessions.length <;> simp [hq]
  exact ⟨hcount, hany _ hclient, hany _ hremote⟩

theorem Steps.sameLive {a : Event × Inputs} (hstep : srv.Steps E a srv') (hresolves : srv.Resolves E a)
    (hfails : srv.RemoteFails E a)
    : srv.SameLive srv' := by
  obtain ⟨hrequest, t, hasks, hfails⟩ := hfails
  have hcreate : a.2.create = false := by
    cases hcreate : a.2.create with
    | false => rfl
    | true => exact absurd (hfails.resolve_left (by simp [hcreate])) (hresolves hrequest hcreate t hasks)
  have hdropped : ∀ {r m₁}, (srv.machine .new a.2).Reads E .server r m₁
      → srv.SameLive (srv.add m₁.dropped) := by
    intro r m₁ hread
    have hcount : m₁.dropped.remoteCount = srv.remoteCount := hread.kept.remoteCount
    apply sameLive_add hcount
    . rfl
    . show m₁.client.conn.live = false
      rw [hread.kept.conn]
      rfl
  cases hstep with
  | idle hdisabled =>
    rw [hrequest] at hdisabled
    exact absurd trivial hdisabled
  | mishap ha hm => exact absurd hresolves (not_resolves_of_orphans ha hm)
  | reply ha => simp [hrequest] at ha
  | timeout ha => simp [hrequest] at ha
  | request ha hm =>
    cases hm with
    | unread hread => exact hdropped hread
    | uncreated hread => exact hdropped hread
    | linked hread hcreate' =>
      have hcreate' : a.2.create = true := hcreate'
      simp [hcreate] at hcreate'

end UdpServer

/--
As long as the address of every remote whose socket has been created is found, `remote_count` is the number
of the remotes that have been created and not been freed, no client and no remote is freed twice, and a
request for which there is no remote leaves everything as it was.
-/
theorem session_accounting {E : Env κ} (hI : E.inet.Lawful) {as : List (Event × Inputs)} {srv : UdpServer}
    (hrun : run (UdpServer.next E) (.new E) as = .ok srv)
    (has : Along (UdpServer.next E) (UdpServer.Resolves E) (.new E) as)
    : srv.Accounted ∧ 0 ≤ srv.remoteCount
        ∧ ∀ a, srv.Resolves E a → srv.RemoteFails E a → srv.SameLive (srv.step E a) := by
  have h := UdpServer.balanced_run hI has hrun
  refine ⟨h.accounted, ?_, fun a => (h.toOrdered.steps hI a).sameLive⟩
  rw [h.remoteCount]
  omega

def threeRequests : List (Event × Inputs) :=
  [requestFor 1 1000, requestFor 2 1001, replyTo 0, (.request, { (requestFor 3 1002).2 with create := false })]

theorem session_accounting_three_requests
    : ∃ srv, run (UdpServer.next (.default .xsServer .copy .text)) (.new (.default .xsServer .copy .text))
          threeRequests = .ok srv
        ∧ (srv.remoteCount = 1 ∧ srv.sessions.length = 3)
        ∧ srv.Accounted ∧ 0 ≤ srv.remoteCount
        ∧ ∀ a, srv.Resolves (.default .xsServer .copy .text) a
            → srv.RemoteFails (.default .xsServer .copy .text) a
            → srv.SameLive (srv.step (.default .xsServer .copy .text) a) := by
  obtain ⟨srv, hrun, hcounts⟩ := exists_ok_of_eval
    (r := run (UdpServer.next (.default .xsServer .copy .text)) (.new (.default .xsServer .copy .text))
      threeRequests)
    (fun srv => srv.remoteCount = 1 ∧ srv.sessions.length = 3) (by decide +kernel)
  exact ⟨srv, hrun, hcounts, session_accounting Inet.text_lawful hrun (by decide +kernel)⟩

/--
The socket for the remote is created but its name is not found: the remote is freed twice, and
`remote_count` is negative.
-/
theorem remote_freed_twice
    : ∃ srv, run (UdpServer.next (.default .xsServer .copy .text)) (.new (.default .xsServer .copy .text))
          [(.request, { (requestFor 1 1000).2 with getaddrinfo := fun _ _ => none })] = .ok srv
        ∧ srv.remoteCount = -1
        ∧ (∃ p ∈ srv.sessions, p.trace.count .remoteFree = 2)
        ∧ ¬srv.Accounted := by
  obtain ⟨srv, hrun, hcount, htwice⟩ := exists_ok_of_eval
    (r := run (UdpServer.next (.default .xsServer .copy .text)) (.new (.default .xsServer .copy .text))
      [(.request, { (requestFor 1 1000).2 with getaddrinfo := fun _ _ => none })])
    (fun srv => srv.remoteCount = -1 ∧ ∃ p ∈ srv.sessions, p.trace.count .remoteFree = 2) (by decide +kernel)
  refine ⟨srv, hrun, hcount, htwice, ?_⟩
  intro h
  obtain ⟨p, hp, hp'⟩ := htwice
  have := h.remoteFree p hp
  omega

end Xsocks.Udp
