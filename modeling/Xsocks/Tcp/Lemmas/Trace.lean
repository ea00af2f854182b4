import Xsocks.Tcp.Lemmas.Io

/-!
This module contains the bytes that go over the sockets of a pair, as its trace has them, and what
is left of a pair that has been freed.
-/

namespace Xsocks

variable {κ : Type}

namespace Io

def dataIn (s : Side) : Io → List Byte
  | recv c data => if c = s then data else []
  | _ => []

def dataOut (s : Side) : Io → List Byte
  | send c data => if c = s then data else []
  | _ => []

def Silent (io : Io) : Prop :=
  ∀ s, io.dataIn s = [] ∧ io.dataOut s = []

def Closing : Io → Prop
  | onClose _ => True
  | sdsfree _ => True
  | connectionFree => True
  | _ => False

theorem Closing.silent {io : Io} (h : io.Closing) : io.Silent := by
  cases io <;> simp_all [Closing, Silent, dataIn, dataOut]

def received (s : Side) (trace : List Io) : List Byte :=
  trace.flatMap (dataIn s)

def accepted (s : Side) (trace : List Io) : List Byte :=
  trace.flatMap (dataOut s)

def closes (s : Side) (trace : List Io) : Nat :=
  trace.count (.onClose s)

variable (s : Side) (tr tr' : List Io) (io : Io)

@[simp]
theorem received_nil : received s [] = [] := by
  rfl

@[simp]
theorem accepted_nil : accepted s [] = [] := by
  rfl

@[simp]
theorem received_append : received s (tr ++ tr') = received s tr ++ received s tr' := by
  simp [received]

@[simp]
theorem accepted_append : accepted s (tr ++ tr') = accepted s tr ++ accepted s tr' := by
  simp [accepted]

@[simp]
theorem received_cons : received s (io :: tr) = io.dataIn s ++ received s tr := by
  rfl

@[simp]
theorem accepted_cons : accepted s (io :: tr) = io.dataOut s ++ accepted s tr := by
  rfl

theorem received_of_silent (h : ∀ io ∈ tr, Silent io) : received s tr = [] := by
  simp only [received, List.flatMap_eq_nil_iff]
  intro io hio
  exact (h io hio s).1

theorem accepted_of_silent (h : ∀ io ∈ tr, Silent io) : accepted s tr = [] := by
  simp only [accepted, List.flatMap_eq_nil_iff]
  intro io hio
  exact (h io hio s).2

theorem received_sends (t : Side) (sends : List (List Byte))
    : received s (sends.map (.send t)) = [] := by
  induction sends with
  | nil => rfl
  | cons d sends ih => simp [ih, dataIn]

end Io

/--
At all times, i.e. after every prefix of the trace, `dst` has accepted a prefix of what was read from
`src`.
-/
def Relayed (src dst : Side) (tr : List Io) : Prop :=
  ∀ t, t <+: tr → Io.accepted dst t <+: Io.received src t

namespace Relayed

variable {src dst : Side} {tr : List Io}

theorem nil : Relayed src dst [] := by
  intro t ht
  rw [List.prefix_nil.mp ht]
  simp

theorem snoc (h : Relayed src dst tr) {io : Io}
    (hio : Io.accepted dst (tr ++ [io]) <+: Io.received src (tr ++ [io]))
    : Relayed src dst (tr ++ [io]) := by
  intro t ht
  rw [List.prefix_concat_iff] at ht
  rcases ht with ht | ht
  . rw [ht]
    exact hio
  . exact h t ht

theorem snoc_of_dataOut (h : Relayed src dst tr) {io : Io} (hio : io.dataOut dst = [])
    : Relayed src dst (tr ++ [io]) := by
  apply h.snoc
  have := h tr (List.prefix_refl tr)
  simp only [Io.accepted_append, Io.received_append, Io.accepted_cons, hio, Io.accepted_nil,
    List.append_nil]
  exact List.IsPrefix.trans this (List.prefix_append _ _)

theorem append_of_silent (h : Relayed src dst tr) (ios : List Io) (hios : ∀ io ∈ ios, io.Silent)
    : Relayed src dst (tr ++ ios) := by
  induction ios generalizing tr with
  | nil => simpa using h
  | cons io ios ih =>
    have := ih (h.snoc_of_dataOut (hios io (by simp) dst).2) (fun io h => hios io (by simp [h]))
    simpa using this

end Relayed

structure TcpConn.Gone (c : TcpConn κ) : Prop where
  live : c.live = false
  re : c.re = false
  we : c.we = false
  te : c.timer.te = none

theorem TcpConn.gone_close (c : TcpConn κ) : c.close.Gone :=
  ⟨rfl, rfl, rfl, rfl⟩

namespace Machine

variable {m : Machine κ} {s : Side}

def Dead (m : Machine κ) : Prop :=
  ∀ s, (m.conn s).Gone

def Absent (m : Machine κ) : Prop :=
  m.remote = false → (m.conn .remote).Gone

theorem conn_freed (m : Machine κ) (s : Side)
    : m.freed.conn s = if s = .remote ∧ m.remote = false then m.conn s else (m.conn s).close := by
  cases hr : m.remote <;> cases s <;> simp [freed, closeConn, hr]

theorem dead_freed (h : m.Absent) : m.freed.Dead := by
  intro s
  rw [conn_freed]
  split
  . next hs =>
    rw [hs.1]
    exact h hs.2
  . exact TcpConn.gone_close _

theorem dead_closed (h : m.Absent) (s : Side) : (m.closed s).Dead :=
  dead_freed (m := m.log (.onClose s)) h

theorem Dead.not_alive (h : m.Dead) : ¬m.Alive := by
  intro ha
  have := ha.client.live
  rw [(h .client).live] at this
  contradiction

@[simp]
theorem remote_freed (m : Machine κ) : m.freed.remote = m.remote := by
  cases hr : m.remote <;> simp [freed, closeConn, hr]

@[simp]
theorem err_freed (m : Machine κ) (s : Side) : (m.freed.conn s).err = (m.conn s).err := by
  rw [conn_freed]
  split <;> simp [TcpConn.close]

theorem closing_closeIo (c : TcpConn κ) : ∀ io ∈ c.closeIo, io.Closing := by
  intro io h
  unfold TcpConn.closeIo at h
  split at h <;> simp_all [Io.Closing]

theorem trace_freed (m : Machine κ)
    : ∃ ios, m.freed.trace = m.trace ++ ios ∧ (∀ io ∈ ios, io.Closing)
        ∧ ∀ s, Io.closes s ios = 0 := by
  have hclose := fun s => closing_closeIo (m.conn s)
  have hcount : ∀ s t, (m.conn t).closeIo.count (.onClose s) = 0 := by
    intro s t
    unfold TcpConn.closeIo
    split <;> simp
  cases hr : m.remote with
  | false =>
    refine ⟨.connectionFree :: (m.conn .client).closeIo, by simp [freed, closeConn, hr], ?_, ?_⟩
    . simp only [List.mem_cons, forall_eq_or_imp]
      exact ⟨trivial, hclose _⟩
    . simp [Io.closes, hcount]
  | true =>
    refine ⟨.connectionFree :: ((m.conn .remote).closeIo ++ (m.conn .client).closeIo),
      by simp [freed, closeConn, hr], ?_, ?_⟩
    . simp only [List.mem_cons, List.mem_append, forall_eq_or_imp]
      refine ⟨trivial, ?_⟩
      intro io hio
      rcases hio with hio | hio
      . exact hclose _ io hio
      . exact hclose _ io hio
    . simp [Io.closes, hcount]

theorem trace_closed (m : Machine κ) (s : Side)
    : ∃ ios, (m.closed s).trace = m.trace ++ ios ∧ (∀ io ∈ ios, io.Closing)
        ∧ ∀ t, Io.closes t ios ≤ 1 := by
  obtain ⟨ios, htrace, hclosing, hcount⟩ := trace_freed (m.log (.onClose s))
  refine ⟨.onClose s :: ios, ?_, ?_, ?_⟩
  . rw [closed, htrace]
    simp
  . simp only [List.mem_cons, forall_eq_or_imp]
    exact ⟨trivial, hclosing⟩
  . intro t
    have := hcount t
    simp only [Io.closes, List.count_cons] at this ⊢
    split <;> omega

theorem write_mem_closed {m : Machine κ} {s t : Side} {bufLen : Int}
    (h : .write t bufLen ∈ (m.closed s).trace)
    : .write t bufLen ∈ m.trace := by
  obtain ⟨ios, htrace, hclosing, -⟩ := trace_closed m s
  rw [htrace, List.mem_append] at h
  rcases h with h | h
  . exact h
  . exact (hclosing _ h).elim

@[simp]
theorem received_closed (m : Machine κ) (s t : Side)
    : Io.received t (m.closed s).trace = Io.received t m.trace := by
  obtain ⟨ios, htrace, hclosing, -⟩ := trace_closed m s
  rw [htrace, Io.received_append, Io.received_of_silent _ _ fun io h => (hclosing io h).silent,
    List.append_nil]

@[simp]
theorem accepted_closed (m : Machine κ) (s t : Side)
    : Io.accepted t (m.closed s).trace = Io.accepted t m.trace := by
  obtain ⟨ios, htrace, hclosing, -⟩ := trace_closed m s
  rw [htrace, Io.accepted_append, Io.accepted_of_silent _ _ fun io h => (hclosing io h).silent,
    List.append_nil]

@[simp]
theorem err_closed (m : Machine κ) (s t : Side)
    : ((m.closed s).conn t).err = (m.conn t).err := by
  simp [closed]

theorem relayed_closed {src dst : Side} (h : Relayed src dst m.trace) (s : Side)
    : Relayed src dst (m.closed s).trace := by
  obtain ⟨ios, htrace, hclosing, -⟩ := trace_closed m s
  rw [htrace]
  exact h.append_of_silent ios fun io h => (hclosing io h).silent

end Machine

end Xsocks
