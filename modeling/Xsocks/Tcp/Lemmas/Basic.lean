import Xsocks.Lib.Wp
import Xsocks.Protocol.Lemmas.Socks5
import Xsocks.Tcp.Impl.Basic

/-!
This module contains the preconditions of the primitive steps of the TCP handlers.
-/

namespace Xsocks

open Wp

variable {κ : Type}

def Inputs.idle (ctx : κ) : Inputs κ :=
  { ctx := (ctx, ctx), uninit := .zero }

namespace Machine

structure Usable (m : Machine κ) (s : Side) : Prop where
  live : (m.conn s).live = true
  exists_remote : s = .remote → m.remote = true

/-- Neither the client nor the remote it points to has been freed. -/
structure Alive (m : Machine κ) : Prop where
  client : m.Usable .client
  remote : m.remote = true → m.Usable .remote

def withInp (m : Machine κ) (inp : Inputs κ) : Machine κ :=
  { m with inp := inp }

def pair (client remote : TcpConn κ) (ctx : κ) : Machine κ where
  conn
    | .client => client
    | .remote => remote
  remote := true
  clientCount := 1
  remoteCount := 1
  inp := .idle ctx
  trace := []

theorem alive_pair {client remote : TcpConn κ} {ctx : κ} (hc : client.live = true)
    (hr : remote.live = true)
    : (pair client remote ctx).Alive :=
  ⟨⟨hc, fun _ => rfl⟩, fun _ => ⟨hr, fun _ => rfl⟩⟩

theorem usable_pair {client remote : TcpConn κ} {ctx : κ} (hc : client.live = true)
    (hr : remote.live = true) (s : Side)
    : (pair client remote ctx).Usable s := by
  cases s with
  | client => exact ⟨hc, fun _ => rfl⟩
  | remote => exact ⟨hr, fun _ => rfl⟩

variable (m : Machine κ) (s t : Side) (f : TcpConn κ → TcpConn κ)

@[simp]
theorem conn_upd_self : (m.upd s f).conn s = f (m.conn s) := by
  simp [upd]

@[simp]
theorem conn_upd_of_ne (h : t ≠ s) : (m.upd s f).conn t = m.conn t := by
  simp [upd, h]

theorem conn_upd : (m.upd s f).conn t = if t = s then f (m.conn t) else m.conn t := by
  split
  . next h => simp [h]
  . next h => simp [h]

theorem field_upd {β : Sort _} (g : TcpConn κ → β)
    : g ((m.upd s f).conn t) = if t = s then g (f (m.conn t)) else g (m.conn t) := by
  rw [conn_upd]
  split <;> rfl

section

@[simp]
theorem proto_upd
    : ((m.upd s f).conn t).proto = if t = s then (f (m.conn t)).proto else (m.conn t).proto :=
  field_upd m s t f TcpConn.proto

@[simp]
theorem connected_upd
    : ((m.upd s f).conn t).connected = if t = s then (f (m.conn t)).connected else (m.conn t).connected :=
  field_upd m s t f TcpConn.connected

@[simp]
theorem piped_upd
    : ((m.upd s f).conn t).piped = if t = s then (f (m.conn t)).piped else (m.conn t).piped :=
  field_upd m s t f TcpConn.piped

@[simp]
theorem re_upd
    : ((m.upd s f).conn t).re = if t = s then (f (m.conn t)).re else (m.conn t).re :=
  field_upd m s t f TcpConn.re

@[simp]
theorem we_upd
    : ((m.upd s f).conn t).we = if t = s then (f (m.conn t)).we else (m.conn t).we :=
  field_upd m s t f TcpConn.we

@[simp]
theorem rbuf_upd
    : ((m.upd s f).conn t).rbuf = if t = s then (f (m.conn t)).rbuf else (m.conn t).rbuf :=
  field_upd m s t f TcpConn.rbuf

@[simp]
theorem rbufLen_upd
    : ((m.upd s f).conn t).rbufLen = if t = s then (f (m.conn t)).rbufLen else (m.conn t).rbufLen :=
  field_upd m s t f TcpConn.rbufLen

@[simp]
theorem rbufOff_upd
    : ((m.upd s f).conn t).rbufOff = if t = s then (f (m.conn t)).rbufOff else (m.conn t).rbufOff :=
  field_upd m s t f TcpConn.rbufOff

@[simp]
theorem wbuf_upd
    : ((m.upd s f).conn t).wbuf = if t = s then (f (m.conn t)).wbuf else (m.conn t).wbuf :=
  field_upd m s t f TcpConn.wbuf

@[simp]
theorem wbufLen_upd
    : ((m.upd s f).conn t).wbufLen = if t = s then (f (m.conn t)).wbufLen else (m.conn t).wbufLen :=
  field_upd m s t f TcpConn.wbufLen

@[simp]
theorem err_upd
    : ((m.upd s f).conn t).err = if t = s then (f (m.conn t)).err else (m.conn t).err :=
  field_upd m s t f TcpConn.err

@[simp]
theorem pipe_upd
    : ((m.upd s f).conn t).pipe = if t = s then (f (m.conn t)).pipe else (m.conn t).pipe :=
  field_upd m s t f TcpConn.pipe

end

@[simp]
theorem remote_upd : (m.upd s f).remote = m.remote := by
  rfl

@[simp]
theorem trace_upd : (m.upd s f).trace = m.trace := by
  rfl

@[simp]
theorem inp_upd : (m.upd s f).inp = m.inp := by
  rfl

section

variable (ios : List Io) (io : Io)

@[simp]
theorem conn_logs : (m.logs ios).conn = m.conn := by
  rfl

@[simp]
theorem remote_logs : (m.logs ios).remote = m.remote := by
  rfl

@[simp]
theorem trace_logs : (m.logs ios).trace = m.trace ++ ios := by
  rfl

@[simp]
theorem inp_logs : (m.logs ios).inp = m.inp := by
  rfl

@[simp]
theorem logs_nil : m.logs [] = m := by
  simp [logs]

@[simp]
theorem conn_log : (m.log io).conn = m.conn := by
  rfl

@[simp]
theorem remote_log : (m.log io).remote = m.remote := by
  rfl

@[simp]
theorem trace_log : (m.log io).trace = m.trace ++ [io] := by
  rfl

@[simp]
theorem inp_log : (m.log io).inp = m.inp := by
  rfl

end

@[simp]
theorem conn_withInp (inp : Inputs κ) : (m.withInp inp).conn = m.conn := by
  rfl

@[simp]
theorem remote_withInp (inp : Inputs κ) : (m.withInp inp).remote = m.remote := by
  rfl

@[simp]
theorem trace_withInp (inp : Inputs κ) : (m.withInp inp).trace = m.trace := by
  rfl

@[simp]
theorem conn_popReads : m.popReads.conn = m.conn := by
  rfl

@[simp]
theorem remote_popReads : m.popReads.remote = m.remote := by
  rfl

@[simp]
theorem trace_popReads : m.popReads.trace = m.trace := by
  rfl

@[simp]
theorem conn_popWrites : m.popWrites.conn = m.conn := by
  rfl

@[simp]
theorem remote_popWrites : m.popWrites.remote = m.remote := by
  rfl

@[simp]
theorem trace_popWrites : m.popWrites.trace = m.trace := by
  rfl

@[simp]
theorem conn_discount : m.discount.conn = m.conn := by
  rfl

@[simp]
theorem remote_discount : m.discount.remote = m.remote := by
  rfl

@[simp]
theorem trace_discount : m.discount.trace = m.trace := by
  rfl

variable {m s t f}

theorem usable_congr {m' : Machine κ} (hl : (m'.conn s).live = (m.conn s).live)
    (hr : m'.remote = m.remote)
    : m'.Usable s ↔ m.Usable s := by
  constructor
  . intro h
    exact ⟨by rw [← hl]; exact h.live, by rw [← hr]; exact h.exists_remote⟩
  . intro h
    exact ⟨by rw [hl]; exact h.live, by rw [hr]; exact h.exists_remote⟩

theorem alive_congr {m' : Machine κ} (hl : ∀ s, (m'.conn s).live = (m.conn s).live)
    (hr : m'.remote = m.remote)
    : m'.Alive ↔ m.Alive := by
  have hs := fun s => usable_congr (s := s) (hl s) hr
  constructor
  . intro h
    exact ⟨(hs _).mp h.client, by rw [← hr]; exact fun hr => (hs _).mp (h.remote hr)⟩
  . intro h
    exact ⟨(hs _).mpr h.client, by rw [hr]; exact fun hr => (hs _).mpr (h.remote hr)⟩

theorem live_upd (hf : ∀ c, (f c).live = c.live)
    : ((m.upd t f).conn s).live = (m.conn s).live := by
  rw [conn_upd]
  split
  . rw [hf]
  . rfl

@[simp]
theorem usable_upd (hf : ∀ c, (f c).live = c.live) : (m.upd t f).Usable s ↔ m.Usable s :=
  usable_congr (live_upd hf) rfl

@[simp]
theorem alive_upd (hf : ∀ c, (f c).live = c.live) : (m.upd t f).Alive ↔ m.Alive :=
  alive_congr (fun _ => live_upd hf) rfl

@[simp]
theorem usable_logs (ios : List Io) : (m.logs ios).Usable s ↔ m.Usable s :=
  usable_congr rfl rfl

@[simp]
theorem usable_log (io : Io) : (m.log io).Usable s ↔ m.Usable s :=
  usable_congr rfl rfl

@[simp]
theorem alive_log (io : Io) : (m.log io).Alive ↔ m.Alive :=
  alive_congr (fun _ => rfl) rfl

@[simp]
theorem usable_withInp (inp : Inputs κ) : (m.withInp inp).Usable s ↔ m.Usable s :=
  usable_congr rfl rfl

@[simp]
theorem alive_withInp (inp : Inputs κ) : (m.withInp inp).Alive ↔ m.Alive :=
  alive_congr (fun _ => rfl) rfl

@[simp]
theorem usable_popReads : m.popReads.Usable s ↔ m.Usable s :=
  usable_congr rfl rfl

@[simp]
theorem alive_popReads : m.popReads.Alive ↔ m.Alive :=
  alive_congr (fun _ => rfl) rfl

@[simp]
theorem usable_popWrites : m.popWrites.Usable s ↔ m.Usable s :=
  usable_congr rfl rfl

@[simp]
theorem alive_popWrites : m.popWrites.Alive ↔ m.Alive :=
  alive_congr (fun _ => rfl) rfl

@[simp]
theorem usable_discount : m.discount.Usable s ↔ m.Usable s :=
  usable_congr rfl rfl

end Machine

section

variable {m : Machine κ} {s : Side} {F : Fault → Machine κ → Prop}

@[simp]
theorem wp_deref (h : m.Usable s) (Q : TcpConn κ → Machine κ → Prop)
    : wp (deref s) Q F m ↔ Q (m.conn s) m := by
  have hnull : ¬(s = .remote ∧ m.remote = false) := by
    intro ⟨h1, h2⟩
    have := h.exists_remote h1
    simp [h2] at this
  simp [deref, hnull, h.live]

@[simp]
theorem wp_assign (h : m.Usable s) (f : TcpConn κ → TcpConn κ) (Q : Unit → Machine κ → Prop)
    : wp (assign s f) Q F m ↔ Q () (m.upd s f) := by
  simp [assign, h]

@[simp]
theorem wp_logIo (io : Io) (Q : Unit → Machine κ → Prop)
    : wp (logIo io) Q F m ↔ Q () (m.log io) := by
  simp [logIo]

end

end Xsocks
