import Xsocks.Tcp.Impl.Io
import Xsocks.Tcp.Lemmas.Basic

/-!
This module contains the states in which `tcpRead`, `tcpWrite` and the callbacks they fire leave the
two connections. As long as the pair is alive, none of them runs into a fault.
-/

namespace Xsocks

open Wp

variable {κ : Type}

def TcpConn.closeIo (c : TcpConn κ) : List Io :=
  match c.proto with
  | .socks5 c => [.sdsfree c.addrbufDest]
  | _ => []

namespace Machine

def closeConn (m : Machine κ) (s : Side) : Machine κ :=
  (m.logs (m.conn s).closeIo).upd s TcpConn.close

def freed (m : Machine κ) : Machine κ :=
  let m := m.discount.log .connectionFree
  let m := if m.remote then m.closeConn .remote else m
  m.closeConn .client

def closed (m : Machine κ) (s : Side) : Machine κ :=
  (m.log (.onClose s)).freed

def withErr (m : Machine κ) (s : Side) (err : TcpError) : Machine κ :=
  m.upd s fun c => { c with err := err }

def netRead (m : Machine κ) (bufLen : Int) : NetRead :=
  netTcpRead bufLen (m.inp.reads.headD [])

def netWrite (m : Machine κ) (bufLen : Int) : Int :=
  netTcpWrite bufLen (m.inp.writes.headD [])

/-- The state after `netTcpRead` has put `data` to `off`, with the timer stopped. -/
def received (m : Machine κ) (s : Side) (off : Nat) (data : List Byte) : Machine κ :=
  let m := (m.upd s fun c => { c with timer := c.timer.del }).popReads
  (m.upd s fun c => { c with rbuf := c.rbuf.write off data }).log (.recv s data)

def sent (m : Machine κ) (s : Side) (data : List Byte) : Machine κ :=
  m.popWrites.log (.send s data)

def restarted (m : Machine κ) (s : Side) : Machine κ :=
  m.upd s fun c => { c with timer := c.timer.add }

section

variable {m : Machine κ} {s t : Side}

@[simp]
theorem usable_received (off : Nat) (data : List Byte)
    : (m.received t off data).Usable s ↔ m.Usable s := by
  simp [received]

@[simp]
theorem alive_received (off : Nat) (data : List Byte)
    : (m.received s off data).Alive ↔ m.Alive := by
  simp [received]

@[simp]
theorem usable_sent (data : List Byte) : (m.sent t data).Usable s ↔ m.Usable s := by
  simp [sent]

@[simp]
theorem alive_sent (data : List Byte) : (m.sent s data).Alive ↔ m.Alive := by
  simp [sent]

@[simp]
theorem usable_restarted : (m.restarted t).Usable s ↔ m.Usable s := by
  simp [restarted]

@[simp]
theorem alive_restarted : (m.restarted s).Alive ↔ m.Alive := by
  simp [restarted]

@[simp]
theorem usable_withErr (err : TcpError) : (m.withErr t err).Usable s ↔ m.Usable s := by
  simp [withErr]

@[simp]
theorem alive_withErr (err : TcpError) : (m.withErr s err).Alive ↔ m.Alive := by
  simp [withErr]

end

end Machine

section

variable {m : Machine κ} {s : Side} {F : Fault → Machine κ → Prop}

theorem wp_connClose (h : m.Usable s) (Q : Unit → Machine κ → Prop)
    : wp (connClose s) Q F m ↔ Q () (m.closeConn s) := by
  simp only [connClose, wp_bind, wp_deref h, Machine.closeConn, TcpConn.closeIo]
  split
  . next hp => simp [tcpClose, h, hp]
  . next hp => simp [tcpClose, h, hp]
  . next hp => simp [tcpClose, h, hp, Machine.log]

@[simp]
theorem wp_tcpConnectionFree (h : m.Alive) (Q : Unit → Machine κ → Prop)
    : wp tcpConnectionFree Q F m ↔ Q () m.freed := by
  simp only [tcpConnectionFree, tcpRemoteFree, wp_bind, wp_deref h.client, wp_modify, wp_logIo,
    wp_get, Machine.freed]
  cases hr : m.remote with
  | false => simp [hr, wp_connClose, h.client]
  | true =>
    have hclose : ((m.discount.log .connectionFree).closeConn .remote).Usable .client := by
      rw [Machine.usable_congr (m := m)]
      . exact h.client
      . simp [Machine.closeConn]
      . rfl
    simp [hr, wp_connClose, h.remote, hclose]

@[simp]
theorem wp_fireClose (h : m.Alive) (hs : m.Usable s) (Q : Unit → Machine κ → Prop)
    : wp (fireClose s) Q F m ↔ Q () (m.closed s) := by
  cases s <;> simp [fireClose, tcpClientOnClose, tcpRemoteOnClose, Machine.closed, h, h.client, hs]

theorem wp_fireError (h : m.Alive) (hs : m.Usable s) (Q : Unit → Machine κ → Prop)
    : wp (fireError s) Q F m
        ↔ if (m.conn .client).err = .none ∧ m.remote = false then F .nullDeref m else Q () m := by
  cases hr : m.remote with
  | false =>
    cases s with
    | client =>
      simp only [fireError, tcpClientOnError, wp_bind, wp_deref h.client]
      split
      . next herr => simp [deref, hr, herr]
      . next herr => simp [herr]
    | remote =>
      have := hs.exists_remote rfl
      simp [hr] at this
  | true =>
    have hr := h.remote hr
    cases s with
    | client =>
      simp only [fireError, tcpClientOnError, wp_bind, wp_deref h.client]
      split <;> simp [hr]
    | remote =>
      simp only [fireError, tcpRemoteOnError, wp_bind, wp_deref h.client, wp_deref hr]
      split <;> simp [hr]

theorem wp_failed (h : m.Alive) (hs : m.Usable s) (Q : Int → Machine κ → Prop)
    : wp (failed s) Q F m
        ↔ if (m.conn .client).err = .none ∧ m.remote = false then F .nullDeref m
          else Q ERR (m.closed s) := by
  simp only [failed, wp_bind, wp_fireError h hs, wp_fireClose h hs, wp_pure]

@[simp]
theorem wp_setErr (h : m.Usable s) (err : TcpError) (Q : Unit → Machine κ → Prop)
    : wp (setErr s err) Q F m ↔ Q () (m.withErr s err) := by
  simp [setErr, Machine.withErr, h]

@[simp]
theorem wp_failed_withErr (h : m.Alive) (hs : m.Usable s) {err : TcpError} (herr : err ≠ .none)
    (Q : Int → Machine κ → Prop)
    : wp (failed s) Q F (m.withErr s err) ↔ Q ERR ((m.withErr s err).closed s) := by
  rw [wp_failed (by simpa using h) (by simpa using hs), if_neg]
  intro ⟨h1, h2⟩
  cases s with
  | client => simp [Machine.withErr, herr] at h1
  | remote =>
    have := hs.exists_remote rfl
    rw [Machine.withErr, Machine.remote_upd, this] at h2
    contradiction

theorem wp_recv {α : Type} (h : m.Usable s) (off : Nat) (bufLen : Int) (x : NetRead → Proc κ α)
    (Q : α → Machine κ → Prop)
    : wp (do delEventTime s; let res ← recv s off bufLen; x res) Q F m
        ↔ wp (x (m.netRead bufLen)) Q F (m.received s off (m.netRead bufLen).data) := by
  simp [delEventTime, recv, h, Machine.received, Machine.netRead]

theorem wp_tcpRead (h : m.Alive) (hs : m.Usable s) (off : Nat) (bufLen : Int)
    (Q : Int → Machine κ → Prop)
    : wp (tcpRead s off bufLen) Q F m
        ↔
      let res := m.netRead bufLen
      let m := m.received s off res.data
      if res.nread = ERR then Q ERR ((m.withErr s .TCP_ERROR_READ).closed s)
      else if res.nread = 0 ∧ res.closed = true then
        Q ERR ((m.withErr s .TCP_ERROR_CLOSED).closed s)
      else Q res.nread (m.restarted s) := by
  rw [tcpRead, wp_recv hs]
  dsimp only
  split
  . simp [h, hs]
  . split
    . simp [h, hs]
    . simp [addEventTime, hs, Machine.restarted]

theorem wp_send (h : m.Usable s) (buf : List Byte) (bufLen : Int) (Q : Int → Machine κ → Prop)
    : wp (send s buf bufLen) Q F m
        ↔ Q (m.netWrite bufLen) (m.sent s (buf.take (m.netWrite bufLen).toNat)) := by
  simp [send, h, Machine.sent, Machine.netWrite]

theorem wp_tcpWrite (h : m.Alive) (hs : m.Usable s) (buf : List Byte) (bufLen : Int)
    (Q : Int → Machine κ → Prop)
    : wp (tcpWrite s buf bufLen) Q F m
        ↔
      let nwrite := m.netWrite bufLen
      let m := m.sent s (buf.take nwrite.toNat)
      if nwrite = ERR then Q ERR ((m.withErr s .TCP_ERROR_WRITE).closed s) else Q nwrite m := by
  rw [tcpWrite, wp_bind, wp_send hs]
  dsimp only
  split <;> simp [h, hs]

theorem wp_tcpWrite_all (h : m.Alive) (hs : m.Usable s) {room : Nat}
    (hwrites : m.inp.writes.headD [] = [.count room]) {buf : List Byte} (hroom : buf.length ≤ room)
    (Q : Int → Machine κ → Prop)
    : wp (tcpWrite s buf buf.length) Q F m ↔ Q buf.length (m.sent s buf) := by
  have hnet : m.netWrite buf.length = buf.length := by
    rw [Machine.netWrite, hwrites]
    exact netTcpWrite_count hroom
  rw [wp_tcpWrite h hs, hnet]
  dsimp only
  rw [if_neg (by rw [ERR]; omega), Int.toNat_natCast, List.take_length]

end

end Xsocks
