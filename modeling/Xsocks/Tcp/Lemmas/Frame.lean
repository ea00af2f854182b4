import Xsocks.Tcp.Impl.Loop
import Xsocks.Tcp.Lemmas.Trace

/-!
This module contains what the read and write handlers of a connection leave as it is, and what they tell
their callers: a handler that has closed the pair returns `TCP_ERR`.
-/

namespace Xsocks

open Wp

variable {κ : Type}

def Proto.type : Proto κ → ConnType
  | .raw => .RAW
  | .shadowsocks _ => .SHADOWSOCKS
  | .socks5 _ => .SOCKS5

def Io.On (s : Side) : Io → Prop
  | recv c _ => c = s
  | send c _ => c = s
  | write c _ => c = s
  | _ => False

structure TcpConn.Kept (c c' : TcpConn κ) : Prop where
  eq : c' = { c with proto := c'.proto, timer := c'.timer, rbuf := c'.rbuf, err := c'.err }
  lost : c'.timer.lost = c.timer.lost
  timeout : c'.timer.timeout = c.timer.timeout
  type : c'.proto.type = c.proto.type
  stream : ∀ s5, c.proto = .socks5 s5 → s5.state = .STREAM → c'.proto = c.proto

structure Machine.Framed (s : Side) (m m' : Machine κ) : Prop where
  conn : (m.conn s).Kept (m'.conn s)
  other : ∀ t, t ≠ s → m'.conn t = m.conn t
  remote : m'.remote = m.remote
  clientCount : m'.clientCount = m.clientCount
  remoteCount : m'.remoteCount = m.remoteCount
  trace : ∃ ios, m'.trace = m.trace ++ ios ∧ ∀ io ∈ ios, io.On s

namespace TcpConn.Kept

variable {c c' c'' : TcpConn κ}

theorem refl : c.Kept c :=
  ⟨rfl, rfl, rfl, rfl, fun _ _ _ => rfl⟩

theorem trans (h : c.Kept c') (h' : c'.Kept c'') : c.Kept c'' where
  eq := by
    rw [h'.eq, h.eq]
  lost := by
    rw [h'.lost, h.lost]
  timeout := by
    rw [h'.timeout, h.timeout]
  type := by
    rw [h'.type, h.type]
  stream s5 hproto hstate := by
    have heq := h.stream s5 hproto hstate
    rw [h'.stream s5 (heq.trans hproto) hstate, heq]

theorem live (h : c.Kept c') : c'.live = c.live := by
  rw [h.eq]

theorem connected (h : c.Kept c') : c'.connected = c.connected := by
  rw [h.eq]

theorem piped (h : c.Kept c') : c'.piped = c.piped := by
  rw [h.eq]

theorem re (h : c.Kept c') : c'.re = c.re := by
  rw [h.eq]

theorem we (h : c.Kept c') : c'.we = c.we := by
  rw [h.eq]

theorem rbufOff (h : c.Kept c') : c'.rbufOff = c.rbufOff := by
  rw [h.eq]

theorem rbufLen (h : c.Kept c') : c'.rbufLen = c.rbufLen := by
  rw [h.eq]

theorem pipe (h : c.Kept c') : c'.pipe = c.pipe := by
  rw [h.eq]

-- A timer event exists only if there is a timeout.
theorem te_none (h : c.Kept c') (hte : c.timer.te = none) : c'.timer.te = none := by
  rw [← Option.not_isSome_iff_eq_none, c'.timer.isSome_te, h.timeout, ← c.timer.isSome_te]
  simp [hte]

theorem raw (h : c.Kept c') (hraw : c.proto = .raw) : c'.proto = .raw := by
  have htype := h.type
  rw [hraw] at htype
  cases hproto : c'.proto with
  | raw => rfl
  | shadowsocks _ => simp [hproto, Proto.type] at htype
  | socks5 _ => simp [hproto, Proto.type] at htype

end TcpConn.Kept

theorem TcpConn.kept_updShadowsocks (c : TcpConn κ) {f : TcpShadowsocks κ → TcpShadowsocks κ}
    : c.Kept (c.updShadowsocks f) := by
  unfold TcpConn.updShadowsocks
  split
  . next ss hproto =>
    refine ⟨rfl, rfl, rfl, ?_, ?_⟩
    . simp [hproto, Proto.type]
    . simp [hproto]
  . exact .refl

namespace Machine

variable {m₀ m : Machine κ} {s t : Side}

theorem framed_refl : m₀.Framed s m₀ :=
  ⟨.refl, fun _ _ => rfl, rfl, rfl, rfl, [], by simp, by simp⟩

theorem Framed.kept (h : m₀.Framed s m) (t : Side) : (m₀.conn t).Kept (m.conn t) := by
  by_cases ht : t = s
  . rw [ht]
    exact h.conn
  . rw [h.other t ht]
    exact .refl

theorem Framed.usable (h : m₀.Framed s m) (ht : m₀.Usable t) : m.Usable t :=
  (usable_congr (h.kept t).live h.remote).mpr ht

theorem Framed.alive (h : m₀.Framed s m) (h₀ : m₀.Alive) : m.Alive :=
  (alive_congr (fun t => (h.kept t).live) h.remote).mpr h₀

theorem Framed.logs (h : m₀.Framed s m) {ios : List Io} (hios : ∀ io ∈ ios, io.On s)
    : m₀.Framed s (m.logs ios) := by
  obtain ⟨ios₀, htrace, hios₀⟩ := h.trace
  refine ⟨h.conn, h.other, h.remote, h.clientCount, h.remoteCount, ios₀ ++ ios, ?_, ?_⟩
  . rw [trace_logs, htrace, List.append_assoc]
  . intro io hio
    rcases List.mem_append.mp hio with hio | hio
    . exact hios₀ io hio
    . exact hios io hio

theorem Framed.popReads (h : m₀.Framed s m) : m₀.Framed s m.popReads :=
  ⟨h.conn, h.other, h.remote, h.clientCount, h.remoteCount, h.trace⟩

theorem Framed.popWrites (h : m₀.Framed s m) : m₀.Framed s m.popWrites :=
  ⟨h.conn, h.other, h.remote, h.clientCount, h.remoteCount, h.trace⟩

theorem Framed.upd (h : m₀.Framed s m) {f : TcpConn κ → TcpConn κ}
    (hf : (m₀.conn s).Kept (f (m.conn s)))
    : m₀.Framed s (m.upd s f) := by
  refine ⟨?_, ?_, h.remote, h.clientCount, h.remoteCount, h.trace⟩
  . rw [conn_upd_self]
    exact hf
  . intro t ht
    rw [conn_upd_of_ne _ _ _ _ ht]
    exact h.other t ht

theorem Framed.not_stream (h : m₀.Framed s m) {c : TcpSocks5}
    (hc : (m.conn s).proto = .socks5 c) (hstate : c.state ≠ .STREAM)
    : ∀ s5, (m₀.conn s).proto = .socks5 s5 → s5.state ≠ .STREAM := by
  intro s5 hproto hstream
  have heq := h.conn.stream s5 hproto hstream
  rw [hc, hproto] at heq
  cases heq
  contradiction

end Machine

def Halted (m₀ : Machine κ) (s : Side) (f : Fault) (m : Machine κ) : Prop :=
  f ≠ .useAfterFree ∧ m₀.Framed s m

def Machine.Shut (m₀ : Machine κ) (s : Side) (m : Machine κ) : Prop :=
  ∃ m', m₀.Framed s m' ∧ m = m'.closed s

def Replied (m₀ : Machine κ) (s : Side) (r : Int) (m : Machine κ) : Prop :=
  (0 ≤ r ∧ m₀.Framed s m) ∨ (r = ERR ∧ m₀.Shut s m)

theorem Replied.shut {m₀ m : Machine κ} {s : Side} (h : Replied m₀ s ERR m) : m₀.Shut s m := by
  rcases h with ⟨hnonneg, -⟩ | ⟨-, hshut⟩
  . contradiction
  . exact hshut

theorem Replied.framed {m₀ m : Machine κ} {s : Side} {r : Int} (h : Replied m₀ s r m) (hne : r ≠ ERR)
    : 0 ≤ r ∧ m₀.Framed s m := by
  rcases h with h | ⟨heq, -⟩
  . exact h
  . contradiction

def Stays {α : Type} (m₀ : Machine κ) (s : Side) (x : Proc κ α) : Prop :=
  Triple (m₀.Framed s) x (fun _ => m₀.Framed s) (Halted m₀ s)

def Replies (m₀ : Machine κ) (s : Side) (x : Proc κ Int) : Prop :=
  Triple (m₀.Framed s) x (Replied m₀ s) (Halted m₀ s)

theorem Replies.bind {m₀ : Machine κ} {s : Side} {α : Type} {x : Proc κ Int} {f : Int → Proc κ α}
    {Q : α → Machine κ → Prop} (hx : Replies m₀ s x)
    (hok : ∀ r, 0 ≤ r → Triple (m₀.Framed s) (f r) Q (Halted m₀ s))
    (herr : Triple (m₀.Shut s) (f ERR) Q (Halted m₀ s))
    : Triple (m₀.Framed s) (x >>= f) Q (Halted m₀ s) := by
  apply Triple.bind hx
  intro r
  apply Triple.or
  . exact Triple.of_and (hok r)
  . apply Triple.of_and
    intro hr
    rw [hr]
    exact herr

section

variable {m₀ : Machine κ} {s : Side}

theorem stays_pure {α : Type} {a : α} : Stays m₀ s (pure a : Proc κ α) :=
  Triple.pure fun _ h => h

theorem replies_pure {r : Int} (hr : 0 ≤ r) : Replies m₀ s (pure r) :=
  Triple.pure fun _ h => .inl ⟨hr, h⟩

theorem replies_shut : Triple (m₀.Shut s) (pure ERR) (Replied m₀ s) (Halted m₀ s) :=
  Triple.pure fun _ h => .inr ⟨rfl, h⟩

theorem triple_throw {α : Type} {f : Fault} (hf : f ≠ .useAfterFree) {Q : α → Machine κ → Prop}
    : Triple (m₀.Framed s) (throw f) Q (Halted m₀ s) :=
  Triple.throw fun _ h => ⟨hf, h⟩

theorem stays_logIo {io : Io} (hio : io.On s) : Stays m₀ s (logIo io) := by
  apply Triple.modify
  intro m h
  exact h.logs (by simpa using hio)

end

section

variable {m₀ : Machine κ} {s : Side} (h₀ : m₀.Alive)

include h₀

-- What is not usable is a remote that does not exist.
theorem usable_or_null {m : Machine κ} (h : m₀.Framed s m) (t : Side)
    : m.Usable t ∨ t = .remote ∧ m.remote = false := by
  have halive := h.alive h₀
  cases t with
  | client => exact .inl halive.client
  | remote =>
    cases hremote : m.remote with
    | false => exact .inr ⟨rfl, rfl⟩
    | true => exact .inl (halive.remote hremote)

theorem triple_deref (t : Side)
    : Triple (m₀.Framed s) (deref t) (fun c m => m₀.Framed s m ∧ m.conn t = c ∧ m.Usable t)
        (Halted m₀ s) := by
  intro m h
  rcases usable_or_null h₀ h t with ht | hnull
  . rw [wp_deref ht]
    exact ⟨h, rfl, ht⟩
  . rw [deref, wp_bind, wp_get, if_pos hnull, wp_throw]
    exact ⟨by simp, h⟩

theorem stays_deref (t : Side) : Stays m₀ s (deref t) :=
  Triple.mono (triple_deref h₀ t) (fun _ h => h) fun _ _ h => h.1

theorem stays_assign {f : TcpConn κ → TcpConn κ} (hf : ∀ c, (m₀.conn s).Kept c → (m₀.conn s).Kept (f c))
    : Stays m₀ s (assign s f) := by
  apply Triple.bind (triple_deref h₀ s)
  intro c
  apply Triple.modify
  intro m h
  exact h.1.upd (hf _ h.1.conn)

theorem stays_setErr {err : TcpError} : Stays m₀ s (setErr s err) :=
  stays_assign h₀ fun _ h => h.trans ⟨rfl, rfl, rfl, rfl, fun _ _ _ => rfl⟩

theorem stays_write {off : Nat} {data : List Byte}
    : Stays m₀ s (assign s fun c => { c with rbuf := c.rbuf.write off data }) :=
  stays_assign h₀ fun _ h => h.trans ⟨rfl, rfl, rfl, rfl, fun _ _ _ => rfl⟩

theorem stays_addEventTime : Stays m₀ s (addEventTime s) :=
  stays_assign h₀ fun _ h => h.trans ⟨rfl, rfl, rfl, rfl, fun _ _ _ => rfl⟩

theorem stays_delEventTime : Stays m₀ s (delEventTime s) :=
  stays_assign h₀ fun _ h => h.trans ⟨rfl, rfl, rfl, rfl, fun _ _ _ => rfl⟩

theorem stays_derefShadowsocks : Stays m₀ s (derefShadowsocks s) := by
  apply Triple.bind (stays_deref h₀ s)
  intro c
  split
  . exact stays_pure
  . exact triple_throw (by simp)

theorem stays_assignShadowsocks {f : TcpShadowsocks κ → TcpShadowsocks κ}
    : Stays m₀ s (assignShadowsocks s f) := by
  apply stays_assign h₀
  intro c h
  exact h.trans c.kept_updShadowsocks

theorem triple_derefSocks5
    : Triple (m₀.Framed s) (derefSocks5 s) (fun c m => m₀.Framed s m ∧ (m.conn s).proto = .socks5 c)
        (Halted m₀ s) := by
  apply Triple.bind (triple_deref h₀ s)
  intro c
  split
  . next c5 hproto =>
    apply Triple.pure
    intro m h
    rw [h.2.1]
    exact ⟨h.1, hproto⟩
  . exact Triple.throw fun _ h => ⟨by simp, h.1⟩

theorem stays_assignSocks5 (hstate : ∀ s5, (m₀.conn s).proto = .socks5 s5 → s5.state ≠ .STREAM)
    {f : TcpSocks5 → TcpSocks5}
    : Stays m₀ s (assignSocks5 s f) := by
  apply stays_assign h₀
  intro c h
  unfold TcpConn.updSocks5
  split
  . next s5 hproto =>
    constructor
    case eq =>
      dsimp only
      rw [h.eq]
    case lost => exact h.lost
    case timeout => exact h.timeout
    case type =>
      rw [← h.type, hproto]
      rfl
    case stream => exact fun s5 hproto hstream => absurd hstream (hstate s5 hproto)
  . exact h

theorem triple_fireClose_shut
    : Triple (m₀.Framed s) (fireClose s) (fun _ => m₀.Shut s) (Halted m₀ s) := by
  intro m h
  rcases usable_or_null h₀ h s with hs | hnull
  . rw [wp_fireClose (h.alive h₀) hs]
    exact ⟨m, h, rfl⟩
  . unfold fireClose
    rw [wp_bind, deref, wp_bind, wp_get, if_pos hnull, wp_throw]
    exact ⟨by simp, h⟩

theorem stays_fireError : Stays m₀ s (fireError s) := by
  apply Triple.bind (stays_deref h₀ s)
  intro _
  cases s with
  | client =>
    apply Triple.bind (stays_deref h₀ _)
    intro c
    split
    . exact Triple.bind (stays_deref h₀ _) fun _ => stays_pure
    . exact stays_pure
  | remote =>
    apply Triple.bind (stays_deref h₀ _)
    intro c
    split
    . exact Triple.bind (stays_deref h₀ _) fun _ => stays_pure
    . exact stays_pure

theorem replies_failed : Replies m₀ s (failed s) := by
  apply Triple.bind (stays_fireError h₀)
  intro _
  exact Triple.bind (triple_fireClose_shut h₀) fun _ => replies_shut

theorem replies_failed_with {err : TcpError} : Replies m₀ s (do setErr s err; failed s) :=
  Triple.bind (stays_setErr h₀) fun _ => replies_failed h₀

end

section

variable {E : Env κ} {m₀ : Machine κ} {s : Side} {off : Nat} {buf : List Byte} {bufLen : Int}
  (h₀ : m₀.Alive)

include h₀

theorem triple_recv_framed
    : Triple (m₀.Framed s) (recv s off bufLen)
        (fun res m => (res.nread = ERR ∨ 0 ≤ res.nread) ∧ m₀.Framed s m) (Halted m₀ s) := by
  intro m h
  rw [recv, wp_bind, wp_get]
  dsimp only
  rw [wp_bind, wp_modify]
  have hnread := netTcpRead_nread bufLen (m.inp.reads.headD [])
  generalize netTcpRead bufLen (m.inp.reads.headD []) = res at *
  refine (?_ : Triple (m₀.Framed s) _ _ (Halted m₀ s)) _ h.popReads
  apply Triple.bind (stays_write h₀)
  intro _
  apply Triple.bind (stays_logIo (by simp [Io.On]))
  intro _
  exact Triple.pure fun _ h => ⟨hnread, h⟩

theorem triple_send_framed
    : Triple (m₀.Framed s) (send s buf bufLen)
        (fun nwrite m => (nwrite = ERR ∧ 0 < bufLen ∨ 0 ≤ nwrite) ∧ m₀.Framed s m) (Halted m₀ s) := by
  apply Triple.bind (stays_deref h₀ s)
  intro _ m h
  rw [wp_bind, wp_get]
  dsimp only
  rw [wp_bind, wp_modify]
  have hnwrite := netTcpWrite_nwrite bufLen (m.inp.writes.headD [])
  generalize netTcpWrite bufLen (m.inp.writes.headD []) = nwrite at *
  refine (?_ : Triple (m₀.Framed s) _ _ (Halted m₀ s)) _ h.popWrites
  apply Triple.bind (stays_logIo (by simp [Io.On]))
  intro _
  exact Triple.pure fun _ h => ⟨hnwrite, h⟩

theorem replies_tcpRead : Replies m₀ s (tcpRead s off bufLen) := by
  apply Triple.bind (stays_delEventTime h₀)
  intro _
  apply Triple.bind (triple_recv_framed h₀)
  intro res
  apply Triple.of_and
  intro hres
  split
  . exact replies_failed_with h₀
  . next hne =>
    rw [or_iff_right hne] at hres
    split
    . apply Triple.bind (stays_setErr h₀)
      intro _
      exact Triple.bind (triple_fireClose_shut h₀) fun _ => replies_shut
    . apply Triple.bind (stays_addEventTime h₀)
      intro _
      exact replies_pure hres

theorem triple_tcpWrite_framed
    : Triple (m₀.Framed s) (tcpWrite s buf bufLen)
        (fun nwrite m => (0 ≤ nwrite ∧ m₀.Framed s m) ∨ ((nwrite = ERR ∧ 0 < bufLen) ∧ m₀.Shut s m))
        (Halted m₀ s) := by
  apply Triple.bind (triple_send_framed h₀)
  intro nwrite
  apply Triple.of_and
  intro hnwrite
  split
  . next heq =>
    rcases hnwrite with ⟨-, hlen⟩ | hpos
    . apply Triple.bind (stays_setErr h₀)
      intro _
      apply Triple.bind (stays_fireError h₀)
      intro _
      apply Triple.bind (triple_fireClose_shut h₀)
      intro _
      exact Triple.pure fun _ h => .inr ⟨⟨rfl, hlen⟩, h⟩
    . rw [heq] at hpos
      contradiction
  . next hne =>
    have hpos : 0 ≤ nwrite := by
      rcases hnwrite with ⟨heq, -⟩ | hpos
      . contradiction
      . exact hpos
    exact Triple.pure fun _ h => .inl ⟨hpos, h⟩

theorem replies_tcpWrite : Replies m₀ s (tcpWrite s buf bufLen) := by
  apply Triple.mono (triple_tcpWrite_framed h₀) fun _ h => h
  intro nwrite m h
  rcases h with h | ⟨⟨heq, -⟩, h⟩
  . exact .inl h
  . exact .inr ⟨heq, h⟩

theorem stays_tcpShadowsocksConnInit {host : CString} {port : Nat}
    : Stays m₀ s (tcpShadowsocksConnInit E s host port) := by
  apply Triple.bind Triple.get
  intro m
  split
  . exact stays_assignShadowsocks h₀
  . exact triple_throw (by simp)

theorem replies_parsed {nread : Int} (hnread : 0 ≤ nread)
    : Replies m₀ s (tcpShadowsocksConnRead.parsed E s off nread) := by
  apply Triple.bind (stays_deref h₀ s)
  intro _
  apply Triple.bind (stays_derefShadowsocks h₀)
  intro _
  split
  . split
    . exact replies_failed_with h₀
    . apply Triple.bind (stays_tcpShadowsocksConnInit h₀)
      intro _
      exact Triple.bind (stays_assignShadowsocks h₀) fun _ => replies_pure hnread
  . exact replies_pure hnread

theorem replies_decrypted {d : Decrypted κ}
    : Replies m₀ s (tcpShadowsocksConnRead.decrypted E s off bufLen d) := by
  unfold tcpShadowsocksConnRead.decrypted
  split
  . exact triple_throw (by simp)
  . apply Triple.bind (stays_assignShadowsocks h₀)
    intro _
    split
    . apply Triple.bind (stays_write h₀)
      intro _
      exact replies_parsed h₀ (by omega)
    . exact replies_failed_with h₀

theorem replies_tcpShadowsocksConnRead : Replies m₀ s (tcpShadowsocksConnRead E s off bufLen) := by
  apply Triple.bind (stays_assignShadowsocks h₀)
  intro _
  apply Replies.bind (replies_tcpRead h₀)
  . intro nread hnread
    split
    . exact replies_pure hnread
    . apply Triple.bind (stays_deref h₀ s)
      intro _
      exact Triple.bind (stays_derefShadowsocks h₀) fun _ => replies_decrypted h₀
  . rw [if_pos (by decide)]
    exact replies_shut

theorem replies_flush : Replies m₀ s (tcpShadowsocksConnWrite.flush s) := by
  apply Triple.bind (stays_derefShadowsocks h₀)
  intro c
  apply Triple.bind (triple_tcpWrite_framed h₀)
  intro nwrite
  apply Triple.or
  . apply Triple.of_and
    intro hnwrite
    split
    . exact Triple.bind (stays_assignShadowsocks h₀) fun _ => replies_pure hnwrite
    . split
      . exact Triple.bind (stays_assignShadowsocks h₀) fun _ => replies_pure hnwrite
      . exact replies_pure hnwrite
  . apply Triple.of_and
    intro ⟨heq, hlen⟩
    rw [heq, if_neg (by rw [ERR]; omega), if_neg (by simp [ERR])]
    exact replies_shut

theorem replies_stream : Replies m₀ s (tcpShadowsocksConnWrite.stream E s buf bufLen) := by
  apply Triple.bind (stays_derefShadowsocks h₀)
  intro c
  split
  . split
    . exact triple_throw (by simp)
    . split
      . exact replies_failed_with h₀
      . exact Triple.bind (stays_assignShadowsocks h₀) fun _ => replies_flush h₀
  . exact replies_flush h₀

theorem replies_tcpShadowsocksConnWrite : Replies m₀ s (tcpShadowsocksConnWrite E s buf bufLen) := by
  apply Triple.bind (stays_derefShadowsocks h₀)
  intro c
  split
  . split
    . exact replies_failed_with h₀
    . apply Triple.bind (stays_assignShadowsocks h₀)
      intro _
      apply Replies.bind (replies_tcpWrite h₀)
      . intro nwrite hnwrite
        split
        . exact replies_pure hnwrite
        . split
          . exact replies_failed h₀
          . exact Triple.bind (stays_assignShadowsocks h₀) fun _ => replies_stream h₀
      . rw [if_pos (by decide)]
        exact replies_shut
  . exact Triple.bind (stays_assignShadowsocks h₀) fun _ => replies_stream h₀
  . exact replies_stream h₀

theorem replies_tcpSocks5ConnRead : Replies m₀ s (tcpSocks5ConnRead E s off bufLen) := by
  apply Triple.bind (Triple.mono (triple_derefSocks5 h₀) (fun _ h => h) fun _ _ h => h.1)
  intro c
  split
  . exact replies_failed_with h₀
  . apply Replies.bind (replies_tcpRead h₀)
    . intro nread hnread
      split
      . exact replies_pure hnread
      . apply Triple.bind (stays_deref h₀ s)
        intro _
        apply Triple.bind (triple_derefSocks5 h₀)
        intro c m ⟨h, hproto⟩
        refine (?_ : Triple (m₀.Framed s) _ _ (Halted m₀ s)) _ h
        split
        . split
          . exact replies_pure hnread
          . exact replies_failed_with h₀
        . next hstate =>
          split
          . exact replies_failed_with h₀
          . have hne := h.not_stream hproto (by simp [hstate])
            apply Triple.bind (Triple.bind Triple.get fun _ => stays_assignSocks5 h₀ hne)
            intro _
            exact replies_pure hnread
        . exact replies_pure hnread
    . rw [if_pos (by decide)]
      exact replies_shut

theorem replies_reply (hne : ∀ s5, (m₀.conn s).proto = .socks5 s5 → s5.state ≠ .STREAM)
    {resp : List Byte} {next : Socks5State}
    : Replies m₀ s (tcpSocks5ConnWrite.reply s resp next) := by
  apply Replies.bind (replies_tcpWrite h₀)
  . intro nwrite hnwrite
    split
    . exact replies_pure hnwrite
    . split
      . exact replies_failed h₀
      . exact Triple.bind (stays_assignSocks5 h₀ hne) fun _ => replies_pure hnwrite
  . rw [if_pos (by decide)]
    exact replies_shut

theorem replies_tcpSocks5ConnWrite : Replies m₀ s (tcpSocks5ConnWrite s buf bufLen) := by
  apply Triple.bind (triple_derefSocks5 h₀)
  intro c m ⟨h, hproto⟩
  refine (?_ : Triple (m₀.Framed s) _ _ (Halted m₀ s)) _ h
  split
  . exact replies_failed_with h₀
  . split
    . next hstate => exact replies_reply h₀ (h.not_stream hproto (by simp [hstate]))
    . next hstate => exact replies_reply h₀ (h.not_stream hproto (by simp [hstate]))
    . exact replies_tcpWrite h₀

theorem replies_connRead : Replies m₀ s (connRead E s off bufLen) := by
  apply Triple.bind (stays_deref h₀ s)
  intro c
  split
  . exact replies_tcpRead h₀
  . exact replies_tcpShadowsocksConnRead h₀
  . exact replies_tcpSocks5ConnRead h₀

theorem replies_connWrite : Replies m₀ s (connWrite E s buf bufLen) := by
  apply Triple.bind (stays_deref h₀ s)
  intro c
  apply Triple.bind (stays_logIo (by simp [Io.On]))
  intro _
  split
  . exact replies_tcpWrite h₀
  . exact replies_tcpShadowsocksConnWrite h₀
  . exact replies_tcpSocks5ConnWrite h₀

theorem replies_writeWbuf : Replies m₀ s (writeWbuf E s) := by
  apply Triple.bind (stays_deref h₀ s)
  intro c
  split
  . exact triple_throw (by simp)
  . exact Triple.bind (stays_deref h₀ _) fun _ => replies_connWrite h₀

end

end Xsocks
