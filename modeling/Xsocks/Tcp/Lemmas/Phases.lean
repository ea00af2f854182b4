import Xsocks.Tcp.Lemmas.UseAfterFree

/-!
This module contains the phases a pair goes through: the client waits for its remote, the remote is being
connected, and both are piped to each other.
-/

namespace Xsocks

open Wp

variable {κ : Type}

def Io.frees (trace : List Io) : Nat :=
  trace.count .connectionFree

namespace Io

def Early : Io → Prop
  | recv s _ => s = .client
  | send s _ => s = .client
  | pipe _ _ => False
  | onConnect _ _ => False
  | _ => True

def Aside : Io → Prop
  | pipe _ _ => False
  | onConnect _ _ => False
  | _ => True

def Later : Io → Prop
  | onConnect _ _ => False
  | _ => True

variable {io : Io} {left : List Byte} {tr ios : List Io}

theorem Early.aside (h : io.Early) : io.Aside := by
  cases io <;> trivial

theorem Aside.later (h : io.Aside) : io.Later := by
  cases io <;> trivial

theorem Closing.early (h : io.Closing) : io.Early := by
  cases io <;> trivial

theorem On.early (h : io.On .client) : io.Early := by
  cases io <;> trivial

theorem On.aside {s : Side} (h : io.On s) : io.Aside := by
  cases io <;> trivial

inductive Joined (left : List Byte) (tr : List Io) : Prop where
  | intro (before between after : List Io)
      (eq : tr = before ++ .onConnect .remote OK :: (between ++ after))
      (early : ∀ io ∈ before, io.Early) (on : ∀ io ∈ between, io.On .remote)
      (accepted : accepted .remote between = left) (later : ∀ io ∈ after, io.Later)

inductive Story (left : List Byte) (tr : List Io) : Prop where
  | early (h : ∀ io ∈ tr, io.Early)
  | refused (before after : List Io) (eq : tr = before ++ .onConnect .remote ERR :: after)
      (before_early : ∀ io ∈ before, io.Early) (after_early : ∀ io ∈ after, io.Early)
  | givenUp (before after : List Io) (eq : tr = before ++ .onConnect .remote OK :: after)
      (early : ∀ io ∈ before, io.Early) (aside : ∀ io ∈ after, io.Aside)
  | joined (h : Joined left tr)

theorem forall_mem_append {p : Io → Prop} (h : ∀ io ∈ tr, p io) (h' : ∀ io ∈ ios, p io)
    : ∀ io ∈ tr ++ ios, p io := by
  intro io hio
  rcases List.mem_append.mp hio with hio | hio
  . exact h io hio
  . exact h' io hio

theorem Joined.append (h : Joined left tr) (hios : ∀ io ∈ ios, io.Later) : Joined left (tr ++ ios) := by
  obtain ⟨before, between, after, eq, early, on, accepted, later⟩ := h
  refine ⟨before, between, after ++ ios, ?_, early, on, accepted, forall_mem_append later hios⟩
  rw [eq]
  simp

theorem Story.append (h : Story left tr) (hios : ∀ io ∈ ios, io.Closing) : Story left (tr ++ ios) := by
  have hearly : ∀ io ∈ ios, io.Early := fun io hio => (hios io hio).early
  have haside : ∀ io ∈ ios, io.Aside := fun io hio => (hearly io hio).aside
  cases h with
  | early h => exact .early (forall_mem_append h hearly)
  | refused before after eq before_early after_early =>
    refine .refused before (after ++ ios) ?_ before_early (forall_mem_append after_early hearly)
    rw [eq, List.append_assoc, List.cons_append]
  | givenUp before after eq early aside =>
    refine .givenUp before (after ++ ios) ?_ early (forall_mem_append aside haside)
    rw [eq, List.append_assoc, List.cons_append]
  | joined h => exact .joined (h.append fun io hio => (haside io hio).later)

theorem Joined.not_refused (h : Joined left tr) : .onConnect .remote ERR ∉ tr := by
  obtain ⟨before, between, after, rfl, early, on, accepted, later⟩ := h
  intro hmem
  simp only [List.mem_append, List.mem_cons] at hmem
  rcases hmem with hmem | hmem | hmem | hmem
  . exact early _ hmem
  . simp [OK, ERR] at hmem
  . exact on _ hmem
  . exact later _ hmem

end Io

def TcpConn.Buffers (f : TcpConn κ → TcpConn κ) : Prop :=
  ∀ c, f c = { c with
    rbuf := (f c).rbuf, rbufOff := (f c).rbufOff, wbuf := (f c).wbuf, wbufLen := (f c).wbufLen
    piped := (f c).piped, pipe := (f c).pipe }

theorem TcpConn.Buffers.harmless {f : TcpConn κ → TcpConn κ} (h : Buffers f) : Harmless f where
  live c := by rw [h]
  lost c := by rw [h]
  raw c hraw := by
    rw [h]
    exact hraw

namespace Machine

def clients (m : Machine κ) : Int :=
  if (m.conn .client).live then 1 else 0

def remotes (m : Machine κ) : Int :=
  if (m.conn .client).live ∧ m.remote then 1 else 0

structure Follows (m m' : Machine κ) : Prop where
  clients : m'.clientCount - m'.clients = m.clientCount - m.clients
  remotes : m'.remoteCount - m'.remotes = m.remoteCount - m.remotes
  frees : Io.frees m'.trace + m'.clients = Io.frees m.trace + m.clients
  trace : m.trace <+: m'.trace
  stream : ∀ s5, (m.conn .client).proto = .socks5 s5 → s5.state = .STREAM
    → (m'.conn .client).proto = (m.conn .client).proto

variable {m m' m'' : Machine κ} {s : Side}

theorem Follows.refl : m.Follows m :=
  ⟨rfl, rfl, rfl, List.prefix_refl _, fun _ _ _ => rfl⟩

theorem Follows.trans (h : m.Follows m') (h' : m'.Follows m'') : m.Follows m'' where
  clients := h'.clients.trans h.clients
  remotes := h'.remotes.trans h.remotes
  frees := h'.frees.trans h.frees
  trace := h.trace.trans h'.trace
  stream s5 hproto hstate := by
    have heq := h.stream s5 hproto hstate
    rw [h'.stream s5 (heq.trans hproto) hstate, heq]

theorem Follows.of_eq (ios : List Io) (hlive : (m'.conn .client).live = (m.conn .client).live)
    (hremote : m'.remote = m.remote) (hclients : m'.clientCount = m.clientCount)
    (hremotes : m'.remoteCount = m.remoteCount) (htrace : m'.trace = m.trace ++ ios)
    (hios : .connectionFree ∉ ios)
    (hstream : ∀ s5, (m.conn .client).proto = .socks5 s5 → s5.state = .STREAM
      → (m'.conn .client).proto = (m.conn .client).proto)
    : m.Follows m' where
  clients := by
    unfold Machine.clients
    rw [hlive, hclients]
  remotes := by
    unfold Machine.remotes
    rw [hlive, hremote, hremotes]
  frees := by
    unfold Machine.clients Io.frees
    rw [hlive, htrace, List.count_append, List.count_eq_zero.mpr hios, Nat.add_zero]
  trace := by
    rw [htrace]
    exact List.prefix_append _ _
  stream := hstream

theorem Framed.follows (h : m.Framed s m') : m.Follows m' := by
  obtain ⟨ios, htrace, hios⟩ := h.trace
  apply Follows.of_eq ios
  case hlive => exact (h.kept .client).live
  case hremote => exact h.remote
  case hclients => exact h.clientCount
  case hremotes => exact h.remoteCount
  case htrace => exact htrace
  case hios => exact fun hmem => hios _ hmem
  case hstream => exact (h.kept .client).stream

theorem follows_log {io : Io} (hio : io ≠ .connectionFree) : m.Follows (m.log io) := by
  apply Follows.of_eq [io]
  case hios => simpa using hio.symm
  case hstream => exact fun _ _ _ => rfl
  all_goals rfl

theorem follows_upd {f : TcpConn κ → TcpConn κ} (hlive : ∀ c, (f c).live = c.live)
    (hproto : ∀ c, (f c).proto = c.proto)
    : m.Follows (m.upd s f) := by
  apply Follows.of_eq []
  case hlive =>
    rw [conn_upd]
    split
    . exact hlive _
    . rfl
  case htrace => exact (List.append_nil _).symm
  case hios => simp
  case hstream =>
    intro _ _ _
    rw [conn_upd]
    split
    . exact hproto _
    . rfl
  all_goals rfl

theorem follows_withErr {err : TcpError} : m.Follows (m.withErr s err) :=
  follows_upd (fun _ => rfl) fun _ => rfl

theorem follows_sent (data : List Byte) : m.Follows (m.sent s data) := by
  apply Follows.of_eq [.send s data]
  case hios => simp
  case hstream => exact fun _ _ _ => rfl
  all_goals rfl

theorem follows_freed (h : m.Alive) : m.Follows m.freed := by
  have hconn : m.freed.conn .client = (m.conn .client).close := by
    rw [conn_freed, if_neg (by simp)]
  have hcounts : m.freed.clientCount = m.clientCount - 1
      ∧ m.freed.remoteCount = if m.remote then m.remoteCount - 1 else m.remoteCount := by
    cases hr : m.remote <;> simp [freed, discount, closeConn, hr, log, logs, upd]
  have hfrees : Io.frees m.freed.trace = Io.frees m.trace + 1 := by
    have hclose : ∀ s, (m.conn s).closeIo.count .connectionFree = 0 := by
      intro s
      unfold TcpConn.closeIo
      split <;> simp
    unfold Io.frees
    cases hr : m.remote <;> simp [freed, closeConn, hr, hclose]
  have hlive := h.client.live
  constructor
  case clients =>
    unfold Machine.clients
    rw [hconn, hcounts.1, hlive]
    simp [TcpConn.close]
  case remotes =>
    unfold Machine.remotes
    rw [hconn, hcounts.2, hlive]
    cases m.remote <;> simp [TcpConn.close]
  case frees =>
    unfold Machine.clients
    rw [hconn, hfrees, hlive]
    simp [TcpConn.close]
  case trace =>
    obtain ⟨ios, htrace, -⟩ := trace_freed m
    rw [htrace]
    exact List.prefix_append _ _
  case stream =>
    intro _ _ _
    rw [hconn]
    rfl

theorem follows_closed (h : m.Alive) (s : Side) : m.Follows (m.closed s) :=
  (follows_log (by simp)).trans (follows_freed (m := m.log (.onClose s)) (by simpa using h))

theorem follows_dialled {E : Env κ} (h : m.Usable .client) (hremote : m.remote = false) (type : ConnType)
    (host : CString) (port : Nat)
    : m.Follows (m.dialled E type host port) := by
  have hlive := h.live
  constructor
  case clients =>
    unfold Machine.clients
    rw [conn_dialled_client]
    rfl
  case remotes =>
    unfold Machine.remotes
    rw [conn_dialled_client, remote_dialled, hremote, hlive]
    simp [dialled, addRemote, upd, log, logs]
  case frees =>
    unfold Machine.clients Io.frees
    rw [conn_dialled_client, trace_dialled, List.count_append]
    simp
  case trace =>
    rw [trace_dialled]
    exact List.prefix_append _ _
  case stream =>
    intro _ _ _
    rw [conn_dialled_client]

structure Handshaking (E : Env κ) (m : Machine κ) : Prop where
  intact : m.Intact E
  remote : m.remote = false
  connected : (m.conn .client).connected = true
  re : (m.conn .client).re = true
  we : (m.conn .client).we = false
  pipe : (m.conn .client).pipe = none
  rbufOff : (m.conn .client).rbufOff = 0
  early : ∀ io ∈ m.trace, io.Early

structure Dialling (E : Env κ) (left : List Byte) (m : Machine κ) : Prop where
  intact : m.Intact E
  remote : m.remote = true
  client : (m.conn .client).connected = true
  connecting : (m.conn .remote).connected = false
  unpiped : (m.conn .remote).piped = false
  re : ∀ s, (m.conn s).re = false
  weClient : (m.conn .client).we = false
  weRemote : (m.conn .remote).we = true
  pipe : ∀ s, (m.conn s).pipe = none
  left : (m.conn .client).rbuf.read 0 (m.conn .client).rbufOff = left
  unleft : E.app ≠ .xsServer → (m.conn .client).rbufOff = 0
  early : ∀ io ∈ m.trace, io.Early

structure Joined (E : Env κ) (left : List Byte) (m : Machine κ) : Prop where
  intact : m.Intact E
  remote : m.remote = true
  connected : ∀ s, (m.conn s).connected = true
  flow : ∀ s, (m.conn s).re = true ∨ (m.conn s.other).we = true
  pipe : ∀ s t, (m.conn s).pipe = some t → t = s.other
  trace : Io.Joined left m.trace

structure Finished (left : List Byte) (m : Machine κ) : Prop where
  ended : m.Over
  story : Io.Story left m.trace

def Engaged (E : Env κ) (left : List Byte) (m : Machine κ) : Prop :=
  m.Dialling E left ∨ m.Joined E left ∨ m.Finished left

structure Broken (m₀ : Machine κ) (left : List Byte) (f : Fault) (m : Machine κ) : Prop where
  follows : m₀.Follows m
  story : Io.Story left m.trace
  ended : f = .useAfterFree → m.Over
  not_refused : f ≠ .useAfterFree → .onConnect .remote ERR ∉ m.trace

variable {E : Env κ} {left : List Byte} {m₀ : Machine κ}

theorem Intact.finished_freed (h : m.Intact E) (hstory : Io.Story left m.trace)
    : m.freed.Finished left := by
  have hover := h.freed (s := .client) (.inl rfl)
  obtain ⟨ios, htrace, hclosing, -⟩ := trace_freed m
  rw [logs_nil] at hover
  refine ⟨hover, ?_⟩
  rw [htrace]
  exact hstory.append hclosing

theorem Intact.finished_closed (h : m.Intact E) (hstory : Io.Story left m.trace) (s : Side)
    : (m.closed s).Finished left := by
  obtain ⟨ios, htrace, hclosing, -⟩ := trace_closed m s
  refine ⟨h.closed s, ?_⟩
  rw [htrace]
  exact hstory.append hclosing

theorem Handshaking.framed (h : m.Handshaking E) (hm : m.Framed .client m') : m'.Handshaking E := by
  obtain ⟨ios, htrace, hios⟩ := hm.trace
  constructor
  case intact => exact h.intact.framed hm
  case remote => exact hm.remote.trans h.remote
  case connected => exact hm.conn.connected.trans h.connected
  case re => exact hm.conn.re.trans h.re
  case we => exact hm.conn.we.trans h.we
  case pipe => exact hm.conn.pipe.trans h.pipe
  case rbufOff => exact hm.conn.rbufOff.trans h.rbufOff
  case early =>
    rw [htrace]
    exact Io.forall_mem_append h.early fun io hio => (hios io hio).early

theorem Dialling.framed (h : m.Dialling E left) (hm : m.Framed .remote m')
    (htrace : ∀ io ∈ m'.trace, io.Early)
    : m'.Dialling E left := by
  have hclient := hm.other .client (by simp)
  constructor
  case intact => exact h.intact.framed hm
  case remote => exact hm.remote.trans h.remote
  case client => exact (hm.kept .client).connected.trans h.client
  case connecting => exact hm.conn.connected.trans h.connecting
  case unpiped => exact hm.conn.piped.trans h.unpiped
  case re => exact fun s => (hm.kept s).re.trans (h.re s)
  case weClient => exact (hm.kept .client).we.trans h.weClient
  case weRemote => exact hm.conn.we.trans h.weRemote
  case pipe => exact fun s => (hm.kept s).pipe.trans (h.pipe s)
  case left =>
    rw [hclient]
    exact h.left
  case unleft =>
    rw [hclient]
    exact h.unleft
  case early => exact htrace

theorem Joined.framed (h : m.Joined E left) (hm : m.Framed s m') : m'.Joined E left := by
  obtain ⟨ios, htrace, hios⟩ := hm.trace
  constructor
  case intact => exact h.intact.framed hm
  case remote => exact hm.remote.trans h.remote
  case connected => exact fun t => (hm.kept t).connected.trans (h.connected t)
  case flow =>
    intro t
    rw [(hm.kept t).re, (hm.kept t.other).we]
    exact h.flow t
  case pipe =>
    intro t
    rw [(hm.kept t).pipe]
    exact h.pipe t
  case trace =>
    rw [htrace]
    exact h.trace.append fun io hio => (hios io hio).aside.later

theorem Joined.usable (h : m.Joined E left) (s : Side) : m.Usable s := by
  cases s with
  | client => exact h.intact.alive.client
  | remote => exact h.intact.alive.remote h.remote

theorem Joined.upd (h : m.Joined E left) {f : TcpConn κ → TcpConn κ} (hf : TcpConn.Buffers f)
    (hpipe : ∀ t, (f (m.conn s)).pipe = some t → t = s.other)
    : (m.upd s f).Joined E left := by
  constructor
  case intact => exact h.intact.upd (h.usable s) hf.harmless
  case remote => exact h.remote
  case connected =>
    intro t
    rw [conn_upd]
    split
    . rw [hf]
      exact h.connected t
    . exact h.connected t
  case flow =>
    intro t
    have hre : ∀ c, (f c).re = c.re := fun c => by rw [hf]
    have hwe : ∀ c, (f c).we = c.we := fun c => by rw [hf]
    rw [re_upd, we_upd, hre, hwe, ite_self, ite_self]
    exact h.flow t
  case pipe =>
    intro t
    rw [conn_upd]
    split
    . next ht =>
      subst ht
      exact hpipe
    . exact h.pipe t
  case trace => exact h.trace

end Machine

end Xsocks
