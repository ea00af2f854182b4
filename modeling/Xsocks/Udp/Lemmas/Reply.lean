import Mathlib.Data.List.ReduceOption
import Xsocks.Protocol.Lemmas.Crypto
import Xsocks.Udp.Lemmas.Session

/-!
This module contains to whom a reply is sent, and which address stands in front of it. The socket of the
server has one `addrbuf_dest` for all clients.
-/

namespace Xsocks.Udp

open Wp Run

variable {κ : Type}

namespace Session

def requested (E : Env κ) (p : Session) : Option (SockAddr × Socks5Addr) :=
  match p.trace.head? with
  | some (.recv .server sa data) =>
    (E.crypto.decryptAll data).bind fun P => (parseAddr E.inet P).map fun addr => (sa, addr)
  | _ => none

/--
A datagram that the client gets goes to where the request came from, and it consists of the address that
was asked for and of what the remote has sent.
-/
def Attributed (E : Env κ) (p : Session) : Prop :=
  ∀ sa c, .send .server sa c ∈ p.trace
    → ∃ addr, p.requested E = some (sa, addr)
        ∧ ∃ sa' payload, .recv .remote sa' payload ∈ p.trace
          ∧ ∃ nonce uninit,
            E.crypto.encryptAll nonce (encodeAddr E.inet uninit (.ofBuf addr.host) addr.port ++ payload) = some c

end Session

def UdpServer.OwnDest (E : Env κ) (srv : UdpServer) (a : Event × Inputs) : Prop :=
  ∀ i p, a.1 = .reply i → srv.sessions[i]? = some p → p.client.conn.live = true
    → ∀ sa addr, p.requested E = some (sa, addr)
      → ∃ uninit, srv.conn.proto = .shadowsocks (encodeAddr E.inet uninit (.ofBuf addr.host) addr.port)

structure Session.Asks (E : Env κ) (p : Session) : Prop where
  requested : ∃ addr, p.requested E = some (p.client.saClient, addr)
  raw : p.client.conn.proto = .raw
  unanswered : ∀ sa c, .send .server sa c ∉ p.trace

namespace Machine

variable {E : Env κ} {m m' : Machine}

theorem Served.not_mem_send (htrace : m.trace = []) (h : m.Served E m') (sa : SockAddr) (c : List Byte)
    : .send .server sa c ∉ m'.trace := by
  have hreads : ∀ {r m₁}, m.Reads E .server r m₁ → .send .server sa c ∉ m₁.trace := by
    intro r m₁ hread
    rcases hread.trace_server with heq | ⟨sa', data, heq⟩ <;> simp [heq, htrace]
  cases h with
  | unread hread => simp [hreads hread]
  | uncreated hread hcreate => simp [hreads hread]
  | linked hread hcreate htarget hsa hwrite => cases hwrite <;> simp [closed, hreads hread]

theorem Served.asks (happ : E.app = .xsServer) (hproto : m.server.proto.Serves E) (hnew : m.client = .new)
    (htrace : m.trace = []) (h : m.Served E m') (hwaiting : m'.session.Waiting)
    : m'.session.Asks E := by
  have hlive : ∀ {r m₁}, m.Reads E .server r m₁ → ¬m₁.dropped.session.Waiting := by
    intro r m₁ hread
    exact (over_dropped (by rw [hread.kept.conn, hnew])).not_waiting
  obtain ⟨addrbufDest, haddrbuf⟩ := hproto.mp happ
  have hunanswered := h.not_mem_send htrace
  cases h with
  | unread hread => exact absurd hwaiting (hlive hread)
  | uncreated hread hcreate => exact absurd hwaiting (hlive hread)
  | @linked buf m₁ m₂ t sa' hread hcreate htarget hsa hwrite =>
    cases hwrite with
    | failed => exact absurd hwaiting (over_freed lost_linkedTo).not_waiting
    | sent hsendto hwrap =>
      cases hread with
      | @plain sa data _ proto hrecv hdata hplain =>
        have hplain : m.server.proto.unwrap E m.inp.uninit (data.take NET_IOBUF_LEN) = some (buf, proto) :=
          hplain
        rw [haddrbuf] at hplain
        obtain ⟨P, addr, hP, haddr, -, -⟩ := Proto.unwrap_shadowsocks hplain
        refine ⟨⟨addr, ?_⟩, ?_, hunanswered⟩
        . simp [session, Session.requested, htrace, hP, haddr]
          rfl
        . exact E.proto_target happ htarget

theorem Answered.mem_send (h : m.Answered E m') {sa : SockAddr} {c : List Byte}
    (hmem : .send .server sa c ∈ m'.trace)
    : .send .server sa c ∈ m.trace
        ∨ sa = m.client.saClient
          ∧ ∃ sa' data buf proto, .recv .remote sa' data ∈ m'.trace
            ∧ m.client.conn.proto.unwrap E m.inp.uninit data = some (buf, proto)
            ∧ m.server.proto.wrap E m.inp.nonce buf = some c := by
  cases h with
  | unread hread =>
    left
    cases hread <;> simpa [closed] using hmem
  | @answered buf m₁ m₂ hread hwrite =>
    cases hread with
    | @plain sa' data _ proto hrecv hdata hplain =>
      cases hwrite with
      | failed =>
        left
        simpa [closed] using hmem
      | @sent c' hsendto hwrap =>
        simp only [trace_freed, trace_log, trace_withProto, trace_received, List.mem_append, List.mem_cons,
          List.not_mem_nil, or_false, reduceCtorEq, Io.send.injEq, true_and] at hmem
        rcases hmem with hmem | ⟨rfl, rfl⟩
        . exact .inl hmem
        . right
          refine ⟨rfl, sa', _, buf, proto, ?_, hplain, hwrap⟩
          simp

theorem Answered.trace_prefix (h : m.Answered E m') : m.trace <+: m'.trace := by
  cases h with
  | unread hread => cases hread <;> simp [closed]
  | answered hread hwrite =>
    cases hread with
    | plain => cases hwrite <;> simp [closed]

end Machine

namespace UdpServer

variable {E : Env κ} {srv srv' : UdpServer}

/-- What holds of xs-server whenever the event loop is reached and every reply has found its own address. -/
structure Faithful (E : Env κ) (srv : UdpServer) : Prop extends srv.Ordered E where
  asks : ∀ p ∈ srv.sessions, p.Waiting → p.Asks E
  attributed : ∀ p ∈ srv.sessions, p.Attributed E

theorem Faithful.replace (h : srv.Faithful E) (hordered : srv'.Ordered E) {q : Session}
    (hmem : ∀ p ∈ srv'.sessions, p ∈ srv.sessions ∨ p = q) (hasks : q.Waiting → q.Asks E)
    (hattributed : q.Attributed E)
    : srv'.Faithful E where
  toOrdered := hordered
  asks p hp hwaiting := by
    rcases hmem p hp with hp | rfl
    . exact h.asks p hp hwaiting
    . exact hasks hwaiting
  attributed p hp := by
    rcases hmem p hp with hp | rfl
    . exact h.attributed p hp
    . exact hattributed

theorem requested_of_prefix {p q : Session} (h : p.trace <+: q.trace) {r : SockAddr × Socks5Addr}
    (hp : p.requested E = some r)
    : q.requested E = some r := by
  obtain ⟨rest, hrest⟩ := h
  have hhead : q.trace.head? = p.trace.head? := by
    cases htrace : p.trace with
    | nil => simp [Session.requested, htrace] at hp
    | cons io ios =>
      rw [← hrest, htrace]
      rfl
  rw [Session.requested, hhead]
  exact hp

theorem attributed_of_not_mem {p : Session} (h : ∀ sa c, .send .server sa c ∉ p.trace) : p.Attributed E :=
  fun sa c hmem => absurd hmem (h sa c)

theorem attributed_answered {p : Session} (hasks : p.Asks E) {inp : Inputs} {m : Machine}
    (hdest : ∀ sa addr, p.requested E = some (sa, addr)
      → ∃ uninit, srv.conn.proto = .shadowsocks (encodeAddr E.inet uninit (.ofBuf addr.host) addr.port))
    (hm : (srv.machine p inp).Answered E m)
    : m.session.Attributed E := by
  intro sa c hmem
  rcases hm.mem_send hmem with hmem | ⟨rfl, sa', data, buf, proto, hrecv, hplain, hwrap⟩
  . exact absurd hmem (hasks.unanswered sa c)
  . obtain ⟨addr, haddr⟩ := hasks.requested
    obtain ⟨uninit, hproto⟩ := hdest _ addr haddr
    have haddr' : m.session.requested E = some (p.client.saClient, addr) := requested_of_prefix hm.trace_prefix haddr
    have hplain : p.client.conn.proto.unwrap E inp.uninit data = some (buf, proto) := hplain
    rw [hasks.raw, Proto.unwrap, Option.some.injEq, Prod.mk.injEq] at hplain
    have hwrap : srv.conn.proto.wrap E inp.nonce buf = some c := hwrap
    rw [hproto, Proto.wrap, ← hplain.1] at hwrap
    exact ⟨addr, haddr', sa', data, hrecv, inp.nonce, uninit, hwrap⟩

theorem Faithful.next (happ : E.app = .xsServer) (h : srv.Faithful E) {a : Event × Inputs}
    (hdest : srv.OwnDest E a) (hstep : srv.Steps E a srv')
    : srv'.Faithful E := by
  have hordered := h.toOrdered.next hstep
  cases hstep with
  | idle => exact h
  | request ha hm =>
    apply h.replace hordered (fun _ => mem_add)
    . exact hm.asks happ h.serves rfl rfl
    . exact attributed_of_not_mem (hm.not_mem_send rfl)
  | mishap ha hm =>
    apply h.replace hordered (fun _ => mem_add)
    . exact fun hwaiting => absurd hwaiting hm.over.not_waiting
    . exact attributed_of_not_mem (hm.not_mem_send rfl .server)
  | reply ha hp hwaiting hm =>
    have hasks := h.asks _ (List.mem_of_getElem? hp) hwaiting
    apply h.replace hordered (fun _ => mem_store)
    . exact fun hwaiting' => absurd hwaiting' (hm.over hwaiting.lost).not_waiting
    . exact attributed_answered hasks (hdest _ _ ha hp hwaiting.conn) hm
  | @timeout i p ha hp hwaiting =>
    have hasks := h.asks p (List.mem_of_getElem? hp) hwaiting
    apply h.replace hordered (fun _ => mem_store)
    . exact fun hwaiting' => absurd hwaiting' (Machine.over_freed hwaiting.lost).not_waiting
    . apply attributed_of_not_mem
      intro sa c hmem
      have hmem : .send .server sa c ∈ p.trace ++ [.remoteFree, .clientFree] := hmem
      exact hasks.unanswered sa c (by simpa using hmem)

end UdpServer

def Inputs.destination (E : Env κ) (inp : Inputs) : Option (List Byte × Nat) :=
  match inp.recv with
  | .error => none
  | .datagram _ data =>
    if data = [] then none
    else
      (E.crypto.decryptAll (data.take NET_IOBUF_LEN)).bind fun P =>
        (parseAddr E.inet P).map fun addr => (addr.host, addr.port)

/-- The destinations of the requests that have arrived so far. The client `i` is the one of the request `i`. -/
abbrev Requests := List (Option (List Byte × Nat))

namespace Requests

def step (E : Env κ) (requests : Requests) (a : Event × Inputs) : Requests :=
  match a.1 with
  | .request => requests ++ [a.2.destination E]
  | .reply _ => requests
  | .timeout _ => requests

def last (requests : Requests) : Option (List Byte × Nat) :=
  requests.reduceOption.getLast?

theorem last_append_none (requests : Requests) : last (requests ++ [none]) = requests.last := by
  rw [last, List.reduceOption_append, List.reduceOption_singleton]
  exact congrArg List.getLast? (List.append_nil _)

theorem last_append_some (requests : Requests) (d : List Byte × Nat) : last (requests ++ [some d]) = some d := by
  rw [last, List.reduceOption_append, List.reduceOption_singleton]
  exact List.getLast?_concat

end Requests

namespace Machine

variable {E : Env κ} {m m₁ m' : Machine}

structure Addressed (E : Env κ) (m : Machine) (server : Proto) : Prop where
  read : ∀ d, m.inp.destination E = some d
    → server = .shadowsocks (encodeAddr E.inet m.inp.uninit (.ofBuf d.1) d.2)
  unread : m.inp.destination E = none → server = m.server.proto

theorem Reads.addressed {addrbufDest : List Byte} (hproto : m.server.proto = .shadowsocks addrbufDest)
    {r : Option (List Byte)} (h : m.Reads E .server r m₁)
    : m.Addressed E m₁.server.proto := by
  have hnone : m.inp.destination E = none → m.Addressed E m.server.proto := by
    intro hnone
    exact ⟨fun d hd => by simp [hnone] at hd, fun _ => rfl⟩
  cases h with
  | error hrecv => exact hnone (by simp [Inputs.destination, hrecv])
  | empty hrecv => exact hnone (by simp [Inputs.destination, hrecv])
  | garbled hrecv hdata hplain =>
    apply hnone
    simp only [conn, hproto, Proto.unwrap] at hplain
    rw [Inputs.destination, hrecv]
    dsimp only
    rw [if_neg hdata]
    split at hplain
    . next hP => rw [hP, Option.bind_none]
    . next P hP =>
      rw [hP, Option.bind_some]
      split at hplain
      . next haddr => rw [haddr, Option.map_none]
      . contradiction
  | @plain sa data buf proto hrecv hdata hplain =>
    have hplain : m.server.proto.unwrap E m.inp.uninit (data.take NET_IOBUF_LEN) = some (buf, proto) := hplain
    rw [hproto] at hplain
    obtain ⟨P, addr, hP, haddr, -, rfl⟩ := Proto.unwrap_shadowsocks hplain
    have hdest : m.inp.destination E = some (addr.host, addr.port) := by
      rw [Inputs.destination, hrecv]
      dsimp only
      rw [if_neg hdata, hP, Option.bind_some, haddr, Option.map_some]
    refine ⟨fun d hd => ?_, fun hnone => by simp [hdest] at hnone⟩
    rw [hdest, Option.some.injEq] at hd
    rw [← hd]
    rfl

theorem Served.addressed {addrbufDest : List Byte} (hproto : m.server.proto = .shadowsocks addrbufDest)
    (h : m.Served E m')
    : m.Addressed E m'.server.proto := by
  cases h with
  | unread hread =>
    have haddressed := hread.addressed hproto
    exact haddressed
  | uncreated hread hcreate =>
    have haddressed := hread.addressed hproto
    exact haddressed
  | linked hread hcreate htarget hsa hwrite =>
    have haddressed := hread.addressed hproto
    cases hwrite <;> exact haddressed

theorem Orphans.addressed {addrbufDest : List Byte} (hproto : m.server.proto = .shadowsocks addrbufDest)
    (h : m.Orphans E m')
    : m.Addressed E m'.server.proto := by
  cases h with
  | unresolved hread hcreate htarget hsa =>
    have haddressed := hread.addressed hproto
    exact haddressed

theorem Served.destination_eq (htrace : m.trace = []) (hnew : m.client = .new) (h : m.Served E m')
    (hwaiting : m'.session.Waiting) {sa : SockAddr} {addr : Socks5Addr}
    (hrequested : m'.session.requested E = some (sa, addr))
    : m.inp.destination E = some (addr.host, addr.port) := by
  have hlive : ∀ {r m₁}, m.Reads E .server r m₁ → ¬m₁.dropped.session.Waiting := by
    intro r m₁ hread
    exact (over_dropped (by rw [hread.kept.conn, hnew])).not_waiting
  cases h with
  | unread hread => exact absurd hwaiting (hlive hread)
  | uncreated hread hcreate => exact absurd hwaiting (hlive hread)
  | @linked buf m₁ m₂ t sa' hread hcreate htarget hsa hwrite =>
    cases hwrite with
    | failed => exact absurd hwaiting (over_freed lost_linkedTo).not_waiting
    | sent hsendto hwrap =>
      cases hread with
      | @plain sa' data _ proto hrecv hdata hplain =>
        simp only [session, Session.requested, trace_log, trace_linkedTo, trace_withProto, trace_received, htrace,
          List.nil_append, List.cons_append, List.head?_cons, Option.bind_eq_some_iff, Option.map_eq_some_iff,
          Prod.mk.injEq] at hrequested
        obtain ⟨P, hP, addr', haddr, -, rfl⟩ := hrequested
        rw [Inputs.destination, hrecv]
        dsimp only
        rw [if_neg hdata, hP, Option.bind_some, haddr, Option.map_some]

end Machine

namespace UdpServer

variable {E : Env κ} {srv srv' : UdpServer} {requests : Requests}

structure Recalls (E : Env κ) (srv : UdpServer) (requests : Requests) : Prop extends srv.Ordered E where
  length : requests.length = srv.sessions.length
  dest : ∀ d, requests.last = some d
    → ∃ uninit, srv.conn.proto = .shadowsocks (encodeAddr E.inet uninit (.ofBuf d.1) d.2)
  asked : ∀ (i : Nat) (p : Session), srv.sessions[i]? = some p → p.Waiting → ∀ sa addr, p.requested E = some (sa, addr)
    → requests[i]? = some (some (addr.host, addr.port))

theorem Recalls.add (h : srv.Recalls E requests) {inp : Inputs} {m : Machine} (hordered : srv'.Ordered E)
    (hconn : srv'.conn = m.server) (hsessions : srv'.sessions = srv.sessions ++ [m.session])
    (haddressed : (srv.machine .new inp).Addressed E m.server.proto)
    (hasked : m.session.Waiting → ∀ sa addr, m.session.requested E = some (sa, addr)
      → inp.destination E = some (addr.host, addr.port))
    : srv'.Recalls E (requests.step E (.request, inp)) where
  toOrdered := hordered
  length := by simp [Requests.step, hsessions, h.length]
  dest d hd := by
    rw [hconn]
    simp only [Requests.step] at hd
    cases hdest : inp.destination E with
    | none =>
      rw [hdest, Requests.last_append_none] at hd
      rw [haddressed.unread hdest]
      exact h.dest d hd
    | some d' =>
      rw [hdest, Requests.last_append_some, Option.some.injEq] at hd
      rw [← hd]
      exact ⟨_, haddressed.read d' hdest⟩
  asked i p hp hwaiting sa addr hrequested := by
    simp only [Requests.step]
    rw [hsessions] at hp
    by_cases hi : i < srv.sessions.length
    . rw [List.getElem?_append_left hi] at hp
      rw [List.getElem?_append_left (by rw [h.length]; exact hi)]
      exact h.asked i p hp hwaiting sa addr hrequested
    . have hlt := (List.getElem?_eq_some_iff.mp hp).1
      rw [List.length_append, List.length_singleton] at hlt
      have heq : i = srv.sessions.length := by omega
      subst heq
      rw [List.getElem?_concat_length, Option.some.injEq] at hp
      subst hp
      rw [← h.length, List.getElem?_concat_length, hasked hwaiting sa addr hrequested]

theorem Recalls.store (h : srv.Recalls E requests) {m : Machine} {i : Nat} (hordered : (srv.store i m).Ordered E)
    (hserver : m.server = srv.conn) (hover : m.session.Over)
    : (srv.store i m).Recalls E requests where
  toOrdered := hordered
  length := by
    rw [h.length]
    exact List.length_set.symm
  dest d hd := by
    show ∃ uninit, m.server.proto = _
    rw [hserver]
    exact h.dest d hd
  asked j p hp hwaiting := by
    have hp : (srv.sessions.set i m.session)[j]? = some p := hp
    by_cases hj : i = j
    . subst hj
      simp only [List.getElem?_set_self', Option.map_eq_map, Option.map_eq_some_iff, Function.const_apply] at hp
      obtain ⟨-, -, rfl⟩ := hp
      exact absurd hwaiting hover.not_waiting
    . rw [List.getElem?_set_ne hj] at hp
      exact h.asked j p hp hwaiting

theorem Recalls.next (happ : E.app = .xsServer) (h : srv.Recalls E requests) {a : Event × Inputs}
    (hstep : srv.Steps E a srv')
    : srv'.Recalls E (requests.step E a) := by
  have hordered := h.toOrdered.next hstep
  obtain ⟨addrbufDest, haddrbuf⟩ := h.serves.mp happ
  obtain ⟨event, inp⟩ := a
  cases hstep with
  | idle hdisabled =>
    cases event with
    | request => exact absurd trivial hdisabled
    | reply i => exact h
    | timeout i => exact h
  | request ha hm =>
    cases ha
    exact h.add hordered rfl rfl (hm.addressed haddrbuf) fun hwaiting _ _ => hm.destination_eq rfl rfl hwaiting
  | mishap ha hm =>
    cases ha
    exact h.add hordered rfl rfl (hm.addressed haddrbuf) fun hwaiting => absurd hwaiting hm.over.not_waiting
  | reply ha hp hwaiting hm =>
    cases ha
    exact h.store hordered hm.server (hm.over hwaiting.lost)
  | timeout ha hp hwaiting =>
    cases ha
    exact h.store hordered rfl (Machine.over_freed hwaiting.lost)

end UdpServer

end Xsocks.Udp
