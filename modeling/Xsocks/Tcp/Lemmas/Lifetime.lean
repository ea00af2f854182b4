import Xsocks.Tcp.Lemmas.Frame

/-!
This module contains what the functions of `protocol/` tell their callers about the life of a pair: a
function that has freed it returns `TCP_ERR`.
-/

namespace Xsocks

open Wp

variable {κ : Type}

structure Machine.Intact (E : Env κ) (m : Machine κ) : Prop where
  alive : m.Alive
  absent : m.Absent
  lost : ∀ s, (m.conn s).timer.lost = []
  raw : E.app = .xsServer → (m.conn .remote).proto = .raw
  closes : ∀ s, Io.closes s m.trace = 0

structure Machine.Over (m : Machine κ) : Prop where
  dead : m.Dead
  lost : ∀ s, (m.conn s).timer.lost = []
  closes : ∀ s, Io.closes s m.trace ≤ 1

def Crashed (f : Fault) (m : Machine κ) : Prop :=
  f ≠ .useAfterFree ∧ ∀ s, Io.closes s m.trace ≤ 1

def Reported (E : Env κ) (r : Int) (m : Machine κ) : Prop :=
  (0 ≤ r ∧ m.Intact E) ∨ (r = ERR ∧ m.Over)

def Settled (E : Env κ) (m : Machine κ) : Prop :=
  m.Intact E ∨ m.Over

def Keeps {α : Type} (E : Env κ) (x : Proc κ α) : Prop :=
  Triple (Machine.Intact E) x (fun _ => Machine.Intact E) Crashed

def Reports (E : Env κ) (x : Proc κ Int) : Prop :=
  Triple (Machine.Intact E) x (Reported E) Crashed

def Settles {α : Type} (E : Env κ) (x : Proc κ α) : Prop :=
  Triple (Machine.Intact E) x (fun _ => Settled E) Crashed

structure TcpConn.Harmless (f : TcpConn κ → TcpConn κ) : Prop where
  live : ∀ c, (f c).live = c.live
  lost : ∀ c, (f c).timer.lost = c.timer.lost
  raw : ∀ c, c.proto = .raw → (f c).proto = .raw

theorem TcpConn.Gone.not_registered {c : TcpConn κ} (h : c.Gone) (hlost : c.timer.lost = []) (r : Ready)
    : c.registered r = false := by
  cases r with
  | read => exact h.re
  | write => exact h.we
  | timeout => simp [TcpConn.registered, Timer.registered, h.te, hlost]

namespace Machine

variable {E : Env κ} {m m' : Machine κ} {s : Side}

theorem Intact.crashed (h : m.Intact E) {f : Fault} (hf : f ≠ .useAfterFree) : Crashed f m :=
  ⟨hf, fun s => by rw [h.closes s]; omega⟩

theorem Intact.congr (h : m.Intact E) (hconn : m'.conn = m.conn) (hremote : m'.remote = m.remote)
    (hcloses : ∀ s, Io.closes s m'.trace = Io.closes s m.trace)
    : m'.Intact E := by
  constructor
  case alive => exact (alive_congr (fun s => by rw [hconn]) hremote).mpr h.alive
  case absent =>
    rw [Absent, hconn, hremote]
    exact h.absent
  case lost =>
    rw [hconn]
    exact h.lost
  case raw =>
    rw [hconn]
    exact h.raw
  case closes =>
    intro s
    rw [hcloses, h.closes]

theorem Intact.log (h : m.Intact E) {io : Io} (hio : ∀ s, io ≠ .onClose s) : (m.log io).Intact E := by
  refine Intact.congr h rfl rfl ?_
  intro s
  simp [Io.closes, hio s]

theorem Intact.sent (h : m.Intact E) (s : Side) (data : List Byte) : (m.sent s data).Intact E :=
  Intact.log (m := m.popWrites) (h.congr rfl rfl fun _ => rfl) (by simp)

theorem Intact.upd (h : m.Intact E) (hs : m.Usable s) {f : TcpConn κ → TcpConn κ}
    (hf : TcpConn.Harmless f)
    : (m.upd s f).Intact E := by
  constructor
  case alive => exact (alive_upd hf.live).mpr h.alive
  case absent =>
    intro hremote
    rw [remote_upd] at hremote
    have hne : Side.remote ≠ s := by
      intro heq
      rw [hs.exists_remote heq.symm] at hremote
      contradiction
    rw [conn_upd_of_ne _ _ _ _ hne]
    exact h.absent hremote
  case lost =>
    intro t
    rw [conn_upd]
    split
    . rw [hf.lost, h.lost]
    . exact h.lost t
  case raw =>
    intro happ
    rw [conn_upd]
    split
    . exact hf.raw _ (h.raw happ)
    . exact h.raw happ
  case closes => exact h.closes

theorem Intact.freed (h : m.Intact E) {s : Side} {ios : List Io} (hios : ios = [] ∨ ios = [.onClose s])
    : (m.logs ios).freed.Over := by
  obtain ⟨ios', htrace, -, hcloses⟩ := trace_freed (m.logs ios)
  refine ⟨dead_freed h.absent, ?_, ?_⟩
  . intro t
    rw [conn_freed]
    split
    . exact h.lost t
    . exact h.lost t
  . intro t
    have h0 := h.closes t
    have h1 := hcloses t
    rw [htrace]
    unfold Io.closes at *
    rw [trace_logs, List.count_append, List.count_append, h0, h1]
    rcases hios with rfl | rfl
    . simp
    . rw [List.count_singleton]
      split <;> omega

theorem Intact.closed (h : m.Intact E) (s : Side) : (m.closed s).Over :=
  h.freed (s := s) (.inr rfl)

theorem Intact.framed (h : m.Intact E) (hm : m.Framed s m') : m'.Intact E := by
  obtain ⟨ios, htrace, hios⟩ := hm.trace
  constructor
  case alive => exact hm.alive h.alive
  case absent =>
    intro hremote
    rw [hm.remote] at hremote
    have habsent := h.absent hremote
    by_cases hs : s = .remote
    . subst hs
      have hte := hm.conn.te_none habsent.te
      exact ⟨hm.conn.live.trans habsent.live, hm.conn.re.trans habsent.re, hm.conn.we.trans habsent.we, hte⟩
    . rw [hm.other .remote (Ne.symm hs)]
      exact habsent
  case lost =>
    intro t
    rw [(hm.kept t).lost, h.lost]
  case raw => exact fun happ => (hm.kept .remote).raw (h.raw happ)
  case closes =>
    intro t
    have hcount : ios.count (.onClose t) = 0 := by
      rw [List.count_eq_zero]
      intro hmem
      exact hios _ hmem
    rw [htrace, Io.closes, List.count_append, hcount]
    exact h.closes t

theorem Over.not_registered (h : m.Over) (s : Side) (r : Ready)
    : ((m.conn s).registered r) = false :=
  (h.dead s).not_registered (h.lost s) r

theorem Intact.live_of_registered (h : m.Intact E) {r : Ready} (hreg : (m.conn s).registered r = true)
    : (m.conn s).live = true := by
  cases s with
  | client => exact h.alive.client.live
  | remote =>
    cases hremote : m.remote with
    | false =>
      rw [(h.absent hremote).not_registered (h.lost .remote)] at hreg
      contradiction
    | true => exact (h.alive.remote hremote).live

theorem Intact.wp_deref (h : m.Intact E) {Q : TcpConn κ → Machine κ → Prop}
    (hQ : m.Usable s → Q (m.conn s) m)
    : wp (deref s) Q Crashed m := by
  by_cases hnull : s = .remote ∧ m.remote = false
  . rw [deref, wp_bind, wp_get, if_pos hnull, wp_throw]
    exact h.crashed (by simp)
  . have hs : m.Usable s := by
      cases s with
      | client => exact h.alive.client
      | remote => exact h.alive.remote (by simpa using hnull)
    rw [Xsocks.wp_deref hs]
    exact hQ hs

end Machine

theorem Reports.bind {E : Env κ} {α : Type} {x : Proc κ Int} {f : Int → Proc κ α}
    {Q : α → Machine κ → Prop} (hx : Reports E x)
    (hok : ∀ r, 0 ≤ r → Triple (Machine.Intact E) (f r) Q Crashed)
    (herr : Triple Machine.Over (f ERR) Q Crashed)
    : Triple (Machine.Intact E) (x >>= f) Q Crashed := by
  apply Triple.bind hx
  intro r
  apply Triple.or
  . exact Triple.of_and (hok r)
  . apply Triple.of_and
    intro hr
    rw [hr]
    exact herr

section

variable {E : Env κ} {s : Side}

theorem keeps_pure {α : Type} {a : α} : Keeps E (pure a : Proc κ α) :=
  Triple.pure fun _ h => h

theorem reports_pure {r : Int} (hr : 0 ≤ r) : Reports E (pure r) :=
  Triple.pure fun _ h => .inl ⟨hr, h⟩

theorem reports_over : Triple (Machine.Over (κ := κ)) (pure ERR) (Reported E) Crashed :=
  Triple.pure fun _ h => .inr ⟨rfl, h⟩

theorem keeps_throw {α : Type} {f : Fault} (hf : f ≠ .useAfterFree) {Q : α → Machine κ → Prop}
    : Triple (Machine.Intact E) (throw f) Q Crashed :=
  Triple.throw fun _ h => h.crashed hf

theorem keeps_deref : Keeps E (deref s) :=
  fun _ h => h.wp_deref fun _ => h

theorem keeps_assign {f : TcpConn κ → TcpConn κ} (hf : TcpConn.Harmless f) : Keeps E (assign s f) := by
  intro m h
  rw [assign, wp_bind]
  apply h.wp_deref
  intro hs
  exact h.upd hs hf

theorem triple_assign {α : Type} {f : TcpConn κ → TcpConn κ} {x : Proc κ α} {Q : α → Machine κ → Prop}
    (hf : TcpConn.Harmless f) (hx : Triple (Machine.Intact E) x Q Crashed)
    : Triple (Machine.Intact E) (do assign s f; x) Q Crashed :=
  Triple.bind (keeps_assign hf) fun _ => hx

theorem keeps_logIo {io : Io} (hio : ∀ s, io ≠ .onClose s) : Keeps E (logIo io) :=
  Triple.modify fun _ h => h.log hio

theorem keeps_addEventRead : Keeps E (addEventRead s) :=
  keeps_assign ⟨fun _ => rfl, fun _ => rfl, fun _ h => h⟩

theorem keeps_delEventRead : Keeps E (delEventRead s) :=
  keeps_assign ⟨fun _ => rfl, fun _ => rfl, fun _ h => h⟩

theorem keeps_addEventWrite : Keeps E (addEventWrite s) :=
  keeps_assign ⟨fun _ => rfl, fun _ => rfl, fun _ h => h⟩

theorem keeps_delEventWrite : Keeps E (delEventWrite s) :=
  keeps_assign ⟨fun _ => rfl, fun _ => rfl, fun _ h => h⟩

theorem keeps_setErr {err : TcpError} : Keeps E (setErr s err) :=
  keeps_assign ⟨fun _ => rfl, fun _ => rfl, fun _ h => h⟩

theorem keeps_derefShadowsocks : Keeps E (derefShadowsocks s) := by
  apply Triple.bind keeps_deref
  intro c
  split
  . exact keeps_pure
  . exact keeps_throw (by simp)

theorem keeps_derefSocks5 : Keeps E (derefSocks5 s) := by
  apply Triple.bind keeps_deref
  intro c
  split
  . exact keeps_pure
  . exact keeps_throw (by simp)

theorem triple_tcpConnectionFree
    : Triple (Machine.Intact E) tcpConnectionFree (fun _ => Machine.Over) Crashed := by
  intro m h
  rw [wp_tcpConnectionFree h.alive]
  have := h.freed (s := .client) (.inl rfl)
  rwa [Machine.logs_nil] at this

theorem triple_fireClose : Triple (Machine.Intact E) (fireClose s) (fun _ => Machine.Over) Crashed := by
  intro m h
  by_cases hs : m.Usable s
  . rw [wp_fireClose h.alive hs]
    exact h.closed s
  . unfold fireClose
    rw [wp_bind]
    apply h.wp_deref
    intro hs'
    contradiction

end

section

variable {E : Env κ} {s src dst : Side} {off : Nat} {buf : List Byte} {bufLen : Int}

theorem Replies.reports {x : Proc κ Int} (hx : ∀ m₀ : Machine κ, m₀.Alive → Replies m₀ s x)
    : Reports E x := by
  intro m h
  apply wp_mono (hx m h.alive m Machine.framed_refl)
  . intro r m' hr
    rcases hr with ⟨hr, hm'⟩ | ⟨hr, m'', hm'', rfl⟩
    . exact .inl ⟨hr, h.framed hm'⟩
    . exact .inr ⟨hr, (h.framed hm'').closed s⟩
  . intro f m' ⟨hf, hm'⟩
    exact (h.framed hm').crashed hf

theorem Stays.keeps {α : Type} {x : Proc κ α} (hx : ∀ m₀ : Machine κ, m₀.Alive → Stays m₀ s x)
    : Keeps E x := by
  intro m h
  apply wp_mono (hx m h.alive m Machine.framed_refl)
  . exact fun _ _ hm' => h.framed hm'
  . intro f m' ⟨hf, hm'⟩
    exact (h.framed hm').crashed hf

theorem reports_connRead : Reports E (connRead E s off bufLen) :=
  Replies.reports fun _ h₀ => replies_connRead h₀

theorem reports_connWrite : Reports E (connWrite E s buf bufLen) :=
  Replies.reports fun _ h₀ => replies_connWrite h₀

theorem reports_writeWbuf : Reports E (writeWbuf E s) :=
  Replies.reports fun _ h₀ => replies_writeWbuf h₀

theorem keeps_tcpShadowsocksConnInit {host : CString} {port : Nat}
    : Keeps E (tcpShadowsocksConnInit E s host port) :=
  Stays.keeps fun _ h₀ => stays_tcpShadowsocksConnInit h₀

theorem reports_tcpPipe : Reports E (tcpPipe E src dst) := by
  apply Triple.bind (keeps_logIo (by simp))
  intro _
  apply Triple.bind keeps_deref
  intro _
  refine triple_assign ⟨fun _ => rfl, fun _ => rfl, fun _ h => h⟩ ?_
  apply Reports.bind reports_connRead
  . intro nread hnread
    split
    . exact reports_pure hnread
    . refine triple_assign ⟨fun _ => rfl, fun _ => rfl, fun _ h => h⟩ ?_
      apply Triple.bind keeps_deref
      intro _
      refine triple_assign ⟨fun _ => rfl, fun _ => rfl, fun _ h => h⟩ ?_
      apply Reports.bind reports_writeWbuf
      . intro nwrite hnwrite
        rw [if_neg (by rw [ERR]; omega)]
        refine triple_assign ⟨fun _ => rfl, fun _ => rfl, fun _ h => h⟩ ?_
        apply Triple.bind keeps_deref
        intro d
        split
        . apply Triple.bind keeps_addEventWrite
          intro _
          exact Triple.bind keeps_delEventRead fun _ => reports_pure hnread
        . refine triple_assign ⟨fun _ => rfl, fun _ => rfl, fun _ h => h⟩ ?_
          refine triple_assign ⟨fun _ => rfl, fun _ => rfl, fun _ h => h⟩ ?_
          apply Triple.bind keeps_delEventWrite
          intro _
          exact Triple.bind keeps_addEventRead fun _ => reports_pure hnread
      . rw [if_pos rfl]
        exact reports_over
  . rw [if_pos (by decide)]
    exact reports_over

theorem reports_tcpPipeWrite : Reports E (tcpPipeWrite E s) := by
  apply Triple.bind keeps_deref
  intro c
  split
  . split
    . exact keeps_throw (by simp)
    . refine triple_assign ⟨fun _ => rfl, fun _ => rfl, fun _ h => h⟩ ?_
      refine triple_assign ⟨fun _ => rfl, fun _ => rfl, fun _ h => h⟩ ?_
      apply Triple.bind keeps_addEventRead
      intro _
      exact Triple.bind keeps_delEventWrite fun _ => reports_pure (by decide)
  . apply Reports.bind reports_writeWbuf
    . intro nwrite hnwrite
      rw [if_neg (by rw [ERR]; omega)]
      apply triple_assign
      . split
        . exact ⟨fun _ => rfl, fun _ => rfl, fun _ h => h⟩
        . exact ⟨fun _ => rfl, fun _ => rfl, fun _ h => h⟩
      . exact Triple.bind keeps_addEventWrite fun _ => reports_pure hnwrite
    . rw [if_pos rfl]
      exact reports_over

end

end Xsocks
