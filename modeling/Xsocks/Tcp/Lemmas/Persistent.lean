import Xsocks.Lib.Wp
import Xsocks.Protocol.Lemmas.Socks5
import Xsocks.Tcp.Impl.Loop

/-!
This module contains the rule for properties of a client that all handlers keep because they only concern its
remote, the address buffer of a SOCKS5 connection and the buffers that were freed.
-/

namespace Xsocks

open Wp

variable {κ : Type}

def Preserves {α : Type} (I : Machine κ → Prop) (x : Proc κ α) : Prop :=
  Triple I x (fun _ => I) (fun _ => I)

structure Persistent (I : Machine κ → Prop) : Prop where
  upd : ∀ m s f, (∀ c : TcpConn κ, (f c).proto = c.proto) → I m → I (m.upd s f)
  shadowsocks : ∀ m s f, I m → I (m.upd s fun c => c.updShadowsocks f)
  socks5 : ∀ m s f, (∀ c, (f c).addrbufDest = c.addrbufDest ∨ ∃ b, (f c).addrbufDest = .created b)
    → I m → I (m.upd s fun c => c.updSocks5 f)
  log : ∀ m io, (∀ x, io ≠ .sdsfree x) → I m → I (m.log io)
  sdsfree : ∀ m s c, (m.conn s).proto = .socks5 c → I m → I (m.log (.sdsfree c.addrbufDest))
  popReads : ∀ m, I m → I m.popReads
  popWrites : ∀ m, I m → I m.popWrites
  discount : ∀ m, I m → I m.discount
  addRemote : ∀ m type timeout, type ≠ .SOCKS5 → I m → I (m.addRemote (.new (.new type m.inp) false timeout))

variable {I : Machine κ → Prop}

namespace Preserves

variable {α β : Type} {x y : Proc κ α} {f : α → Proc κ β} {p : Prop} [Decidable p]

theorem pure {a : α} : Preserves I (pure a : Proc κ α) :=
  Triple.pure fun _ h => h

theorem throw {e : Fault} : Preserves I (throw e : Proc κ α) :=
  Triple.throw fun _ h => h

theorem bind (hx : Preserves I x) (hf : ∀ a, Preserves I (f a)) : Preserves I (x >>= f) :=
  Triple.bind hx hf

theorem get : Preserves I (get : Proc κ (Machine κ)) :=
  Triple.get

theorem modify {f : Machine κ → Machine κ} (hf : ∀ m, I m → I (f m)) : Preserves I (modify f) :=
  Triple.modify hf

theorem ite (hx : Preserves I x) (hy : Preserves I y) : Preserves I (if p then x else y) := by
  split
  . exact hx
  . exact hy

end Preserves

section

variable {E : Env κ} {s t : Side} {off : Nat} {buf : List Byte} {bufLen : Int}

theorem preserves_deref : Preserves I (deref s) := by
  apply Preserves.bind Preserves.get
  intro m
  exact Preserves.ite Preserves.throw (Preserves.ite Preserves.throw Preserves.pure)

theorem preserves_derefShadowsocks : Preserves I (derefShadowsocks s) := by
  apply Preserves.bind preserves_deref
  intro c
  split
  . exact Preserves.pure
  . exact Preserves.throw

theorem preserves_derefSocks5 : Preserves I (derefSocks5 s) := by
  apply Preserves.bind preserves_deref
  intro c
  split
  . exact Preserves.pure
  . exact Preserves.throw

theorem preserves_parseDest {addrbufDest : List Byte} : Preserves I (parseDest E addrbufDest) := by
  unfold parseDest
  split
  . exact Preserves.pure
  . exact Preserves.throw

theorem preserves_isBypass {ip : CString} : Preserves I (isBypass E ip) := by
  refine Preserves.bind (Preserves.ite Preserves.pure Preserves.throw) ?_
  intro ipMatch
  split
  . exact Preserves.pure
  . exact Preserves.pure

theorem preserves_bypass_matched {atyp : Socks5Atyp} {host : CString} (hostMatch : Int)
    : Preserves I
      (if 0 < hostMatch then pure true
      else if hostMatch < 0 then pure false
      else if atyp ≠ .domain then isBypass E host
      else
        match E.anetResolve host with
        | some ip => isBypass E ip
        | none => pure false) := by
  refine Preserves.ite Preserves.pure (Preserves.ite Preserves.pure (Preserves.ite preserves_isBypass ?_))
  split
  . exact preserves_isBypass
  . exact Preserves.pure

theorem preserves_bypass {atyp : Socks5Atyp} {host : CString} : Preserves I (Local.bypass E atyp host) := by
  refine Preserves.ite Preserves.pure ?_
  refine Preserves.ite ?_ ?_
  . exact Preserves.bind (Preserves.ite Preserves.pure Preserves.throw) preserves_bypass_matched
  . exact Preserves.bind Preserves.pure preserves_bypass_matched

theorem preserves_fireError : Preserves I (fireError s : Proc κ _) := by
  have hlook : Preserves I (do let _ ← deref .remote; pure () : Proc κ Unit) :=
    Preserves.bind preserves_deref fun _ => Preserves.pure
  apply Preserves.bind preserves_deref
  intro _
  cases s with
  | client => exact Preserves.bind preserves_deref fun _ => Preserves.ite hlook Preserves.pure
  | remote => exact Preserves.bind preserves_deref fun _ => Preserves.ite hlook Preserves.pure

variable (hI : Persistent I)

include hI

theorem preserves_assign {f : TcpConn κ → TcpConn κ} (hf : ∀ c, (f c).proto = c.proto)
    : Preserves I (assign s f) :=
  Preserves.bind preserves_deref fun _ => Preserves.modify fun m => hI.upd m s f hf

theorem preserves_assignShadowsocks {f : TcpShadowsocks κ → TcpShadowsocks κ}
    : Preserves I (assignShadowsocks s f) :=
  Preserves.bind preserves_deref fun _ => Preserves.modify fun m => hI.shadowsocks m s f

theorem preserves_assignSocks5 {f : TcpSocks5 → TcpSocks5}
    (hf : ∀ c, (f c).addrbufDest = c.addrbufDest ∨ ∃ b, (f c).addrbufDest = .created b)
    : Preserves I (assignSocks5 s f : Proc κ _) :=
  Preserves.bind preserves_deref fun _ => Preserves.modify fun m => hI.socks5 m s f hf

theorem preserves_logIo {io : Io} (hio : ∀ x, io ≠ .sdsfree x) : Preserves I (logIo io) :=
  Preserves.modify fun m => hI.log m io hio

theorem preserves_connClose : Preserves I (connClose s : Proc κ _) := by
  intro m h
  rw [connClose, wp_bind]
  have hderef : wp (deref s) (fun c m => c = m.conn s ∧ I m) (fun _ => I) m := by
    rw [deref, wp_bind, wp_get]
    split
    . exact h
    . split
      . exact h
      . exact ⟨rfl, h⟩
  apply wp_mono hderef
  . intro c m ⟨hc, h⟩
    have hclose : Preserves I (tcpClose s) := preserves_assign hI (by intro _; rfl)
    split
    . exact hclose m h
    . exact hclose m h
    . next s5 hproto =>
      rw [wp_bind, logIo, wp_modify]
      exact hclose _ (hI.sdsfree m s s5 (by rw [← hc, hproto]) h)
  . exact fun _ _ h => h

theorem preserves_tcpConnectionFree : Preserves I (tcpConnectionFree : Proc κ _) := by
  apply Preserves.bind preserves_deref
  intro _
  apply Preserves.bind (Preserves.modify hI.discount)
  intro _
  refine Preserves.bind (preserves_logIo hI (by simp)) fun _ => ?_
  refine Preserves.bind ?_ fun _ => preserves_connClose hI
  exact Preserves.bind Preserves.get fun _ => Preserves.ite (preserves_connClose hI) Preserves.pure

theorem preserves_fireClose : Preserves I (fireClose s : Proc κ _) := by
  apply Preserves.bind preserves_deref
  intro _
  refine Preserves.bind (preserves_logIo hI (by simp)) fun _ => ?_
  cases s with
  | client => exact Preserves.bind preserves_deref fun _ => preserves_tcpConnectionFree hI
  | remote => exact Preserves.bind preserves_deref fun _ => preserves_tcpConnectionFree hI

theorem preserves_failed : Preserves I (failed s : Proc κ _) :=
  Preserves.bind preserves_fireError fun _ => Preserves.bind (preserves_fireClose hI) fun _ => Preserves.pure

theorem preserves_failed_with {err : TcpError} : Preserves I (do setErr s err; failed s : Proc κ _) :=
  Preserves.bind (preserves_assign hI (by intro _; rfl)) fun _ => preserves_failed hI

theorem preserves_recv : Preserves I (recv s off bufLen : Proc κ _) := by
  apply Preserves.bind Preserves.get
  intro m
  apply Preserves.bind (Preserves.modify hI.popReads)
  intro _
  refine Preserves.bind (preserves_assign hI (by intro _; rfl)) fun _ => ?_
  exact Preserves.bind (preserves_logIo hI (by simp)) fun _ => Preserves.pure

theorem preserves_tcpRead : Preserves I (tcpRead s off bufLen : Proc κ _) := by
  refine Preserves.bind (preserves_assign hI (by intro _; rfl)) fun _ => ?_
  apply Preserves.bind (preserves_recv hI)
  intro res
  refine Preserves.ite (preserves_failed_with hI) (Preserves.ite ?_ ?_)
  . refine Preserves.bind (preserves_assign hI (by intro _; rfl)) fun _ => ?_
    exact Preserves.bind (preserves_fireClose hI) fun _ => Preserves.pure
  . exact Preserves.bind (preserves_assign hI (by intro _; rfl)) fun _ => Preserves.pure

theorem preserves_send : Preserves I (send s buf bufLen : Proc κ _) := by
  apply Preserves.bind preserves_deref
  intro _
  apply Preserves.bind Preserves.get
  intro m
  apply Preserves.bind (Preserves.modify hI.popWrites)
  intro _
  exact Preserves.bind (preserves_logIo hI (by simp)) fun _ => Preserves.pure

theorem preserves_tcpWrite : Preserves I (tcpWrite s buf bufLen : Proc κ _) :=
  Preserves.bind (preserves_send hI) fun _ => Preserves.ite (preserves_failed_with hI) Preserves.pure

theorem preserves_tcpShadowsocksConnInit {host : CString} {port : Nat}
    : Preserves I (tcpShadowsocksConnInit E s host port) := by
  apply Preserves.bind Preserves.get
  intro m
  split
  . exact preserves_assignShadowsocks hI
  . exact Preserves.throw

theorem preserves_tcpShadowsocksConnRead : Preserves I (tcpShadowsocksConnRead E s off bufLen) := by
  refine Preserves.bind (preserves_assignShadowsocks hI) fun _ => ?_
  apply Preserves.bind (preserves_tcpRead hI)
  intro nread
  apply Preserves.ite Preserves.pure
  apply Preserves.bind preserves_deref
  intro conn
  apply Preserves.bind preserves_derefShadowsocks
  intro c
  apply Preserves.ite Preserves.throw
  refine Preserves.bind (preserves_assignShadowsocks hI) fun _ => ?_
  split
  . refine Preserves.bind (preserves_assign hI (by intro _; rfl)) fun _ => ?_
    apply Preserves.bind preserves_deref
    intro conn
    apply Preserves.bind preserves_derefShadowsocks
    intro c
    refine Preserves.ite ?_ Preserves.pure
    split
    . exact preserves_failed_with hI
    . refine Preserves.bind (preserves_tcpShadowsocksConnInit hI) fun _ => ?_
      exact Preserves.bind (preserves_assignShadowsocks hI) fun _ => Preserves.pure
  . exact preserves_failed_with hI

theorem preserves_stream : Preserves I (tcpShadowsocksConnWrite.stream E s buf bufLen) := by
  have hflush : Preserves I (tcpShadowsocksConnWrite.flush s : Proc κ _) := by
    apply Preserves.bind preserves_derefShadowsocks
    intro c
    apply Preserves.bind (preserves_tcpWrite hI)
    intro nwrite
    refine Preserves.ite ?_ (Preserves.ite ?_ Preserves.pure)
    . exact Preserves.bind (preserves_assignShadowsocks hI) fun _ => Preserves.pure
    . exact Preserves.bind (preserves_assignShadowsocks hI) fun _ => Preserves.pure
  apply Preserves.bind preserves_derefShadowsocks
  intro c
  refine Preserves.ite (Preserves.ite Preserves.throw ?_) hflush
  split
  . exact preserves_failed_with hI
  . exact Preserves.bind (preserves_assignShadowsocks hI) fun _ => hflush

theorem preserves_tcpShadowsocksConnWrite : Preserves I (tcpShadowsocksConnWrite E s buf bufLen) := by
  apply Preserves.bind preserves_derefShadowsocks
  intro c
  split
  . split
    . exact preserves_failed_with hI
    . refine Preserves.bind (preserves_assignShadowsocks hI) fun _ => ?_
      apply Preserves.bind (preserves_tcpWrite hI)
      intro nwrite
      refine Preserves.ite Preserves.pure (Preserves.ite (preserves_failed hI) ?_)
      exact Preserves.bind (preserves_assignShadowsocks hI) fun _ => preserves_stream hI
  . exact Preserves.bind (preserves_assignShadowsocks hI) fun _ => preserves_stream hI
  . exact preserves_stream hI

theorem preserves_tcpSocks5ConnInit {host : CString} {port : Nat}
    : Preserves I (tcpSocks5ConnInit E s host port) := by
  apply Preserves.bind Preserves.get
  intro m
  rw [socks5AddrInit_eq]
  exact preserves_assignSocks5 hI fun _ => .inr ⟨_, rfl⟩

theorem preserves_tcpSocks5ConnRead : Preserves I (tcpSocks5ConnRead E s off bufLen) := by
  apply Preserves.bind preserves_derefSocks5
  intro c
  apply Preserves.ite (preserves_failed_with hI)
  apply Preserves.bind (preserves_tcpRead hI)
  intro nread
  apply Preserves.ite Preserves.pure
  apply Preserves.bind preserves_deref
  intro conn
  apply Preserves.bind preserves_derefSocks5
  intro c
  split
  . exact Preserves.ite Preserves.pure (preserves_failed_with hI)
  . split
    . exact preserves_failed_with hI
    . exact Preserves.bind (preserves_tcpSocks5ConnInit hI) fun _ => Preserves.pure
  . exact Preserves.pure

theorem preserves_tcpSocks5ConnWrite : Preserves I (tcpSocks5ConnWrite s buf bufLen : Proc κ _) := by
  have hreply : ∀ resp next, Preserves I (tcpSocks5ConnWrite.reply s resp next : Proc κ _) := by
    intro resp next
    apply Preserves.bind (preserves_tcpWrite hI)
    intro nwrite
    refine Preserves.ite Preserves.pure (Preserves.ite (preserves_failed hI) ?_)
    exact Preserves.bind (preserves_assignSocks5 hI (by exact fun _ => .inl rfl)) fun _ => Preserves.pure
  apply Preserves.bind preserves_derefSocks5
  intro c
  apply Preserves.ite (preserves_failed_with hI)
  split
  . exact hreply _ _
  . exact hreply _ _
  . exact preserves_tcpWrite hI

theorem preserves_connRead : Preserves I (connRead E s off bufLen) := by
  apply Preserves.bind preserves_deref
  intro c
  split
  . exact preserves_tcpRead hI
  . exact preserves_tcpShadowsocksConnRead hI
  . exact preserves_tcpSocks5ConnRead hI

theorem preserves_connWrite : Preserves I (connWrite E s buf bufLen) := by
  apply Preserves.bind preserves_deref
  intro c
  refine Preserves.bind (preserves_logIo hI (by simp)) fun _ => ?_
  split
  . exact preserves_tcpWrite hI
  . exact preserves_tcpShadowsocksConnWrite hI
  . exact preserves_tcpSocks5ConnWrite hI

theorem preserves_writeWbuf : Preserves I (writeWbuf E s) := by
  apply Preserves.bind preserves_deref
  intro c
  split
  . exact Preserves.throw
  . exact Preserves.bind preserves_deref fun _ => preserves_connWrite hI

theorem preserves_tcpPipe : Preserves I (tcpPipe E s t) := by
  refine Preserves.bind (preserves_logIo hI (by simp)) fun _ => ?_
  apply Preserves.bind preserves_deref
  intro c
  refine Preserves.bind (preserves_assign hI (by intro _; rfl)) fun _ => ?_
  apply Preserves.bind (preserves_connRead hI)
  intro nread
  apply Preserves.ite Preserves.pure
  refine Preserves.bind (preserves_assign hI (by intro _; rfl)) fun _ => ?_
  apply Preserves.bind preserves_deref
  intro c
  refine Preserves.bind (preserves_assign hI (by intro _; rfl)) fun _ => ?_
  apply Preserves.bind (preserves_writeWbuf hI)
  intro nwrite
  apply Preserves.ite Preserves.pure
  refine Preserves.bind (preserves_assign hI (by intro _; rfl)) fun _ => ?_
  apply Preserves.bind preserves_deref
  intro d
  apply Preserves.ite
  . refine Preserves.bind (preserves_assign hI (by intro _; rfl)) fun _ => ?_
    exact Preserves.bind (preserves_assign hI (by intro _; rfl)) fun _ => Preserves.pure
  . refine Preserves.bind (preserves_assign hI (by intro _; rfl)) fun _ => ?_
    refine Preserves.bind (preserves_assign hI (by intro _; rfl)) fun _ => ?_
    refine Preserves.bind (preserves_assign hI (by intro _; rfl)) fun _ => ?_
    exact Preserves.bind (preserves_assign hI (by intro _; rfl)) fun _ => Preserves.pure

theorem preserves_tcpPipeWrite : Preserves I (tcpPipeWrite E s) := by
  apply Preserves.bind preserves_deref
  intro c
  apply Preserves.ite
  . split
    . exact Preserves.throw
    . refine Preserves.bind (preserves_assign hI (by intro _; rfl)) fun _ => ?_
      refine Preserves.bind (preserves_assign hI (by intro _; rfl)) fun _ => ?_
      refine Preserves.bind (preserves_assign hI (by intro _; rfl)) fun _ => ?_
      exact Preserves.bind (preserves_assign hI (by intro _; rfl)) fun _ => Preserves.pure
  . apply Preserves.bind (preserves_writeWbuf hI)
    intro nwrite
    apply Preserves.ite Preserves.pure
    refine Preserves.bind (preserves_assign hI ?_) ?_
    . intro c
      split <;> rfl
    . intro _
      exact Preserves.bind (preserves_assign hI (by intro _; rfl)) fun _ => Preserves.pure

theorem preserves_pipe {src dst : Side} : Preserves I (do let _ ← tcpPipe E src dst; pure ()) :=
  Preserves.bind (preserves_tcpPipe hI) fun _ => Preserves.pure

theorem preserves_tcpRemoteNew {type : ConnType} {host : CString} {port : Nat} (htype : type ≠ .SOCKS5)
    : Preserves I (tcpRemoteNew E type host port) := by
  refine Preserves.bind (preserves_logIo hI (by simp)) fun _ => ?_
  apply Preserves.bind preserves_deref
  intro _
  apply Preserves.bind Preserves.get
  intro m
  apply Preserves.ite Preserves.pure
  apply Preserves.bind (Preserves.modify fun m => hI.addRemote m type E.timeout htype)
  intro _
  refine Preserves.bind (preserves_assign hI (by intro _; rfl)) fun _ => ?_
  exact Preserves.bind (preserves_assign hI (by intro _; rfl)) fun _ => Preserves.pure

theorem preserves_local_newRemote {addrbufDest : Sds} : Preserves I (Local.newRemote E addrbufDest) := by
  unfold Local.newRemote
  split
  . exact Preserves.throw
  . apply Preserves.bind preserves_parseDest
    intro addr
    apply Preserves.bind preserves_bypass
    intro bypass
    apply Preserves.ite
    . apply Preserves.bind (preserves_tcpRemoteNew hI (by simp))
      intro ok
      exact Preserves.ite (preserves_tcpConnectionFree hI) Preserves.pure
    . apply Preserves.bind (preserves_tcpRemoteNew hI (by simp))
      intro ok
      exact Preserves.ite (preserves_tcpShadowsocksConnInit hI) (preserves_tcpConnectionFree hI)

theorem preserves_server_newRemote {nread : Int} : Preserves I (Server.newRemote E nread) := by
  apply Preserves.bind preserves_derefShadowsocks
  intro c
  apply Preserves.bind preserves_parseDest
  intro addr
  apply Preserves.ite (preserves_tcpConnectionFree hI)
  apply Preserves.bind (preserves_tcpRemoteNew hI (by simp))
  intro ok
  apply Preserves.ite (preserves_tcpConnectionFree hI)
  refine preserves_assign hI ?_
  intro c
  split <;> rfl

theorem preserves_tcpClientOnRead : Preserves I (tcpClientOnRead E) := by
  unfold tcpClientOnRead
  split
  . apply Preserves.bind preserves_deref
    intro c
    apply Preserves.bind preserves_derefSocks5
    intro connClient
    apply Preserves.ite
    . apply Preserves.bind (preserves_connRead hI)
      intro nread
      refine Preserves.ite ?_ Preserves.pure
      apply Preserves.bind preserves_deref
      intro c
      exact Preserves.bind (preserves_connWrite hI) fun _ => Preserves.pure
    . apply Preserves.bind Preserves.get
      intro m
      exact Preserves.ite (preserves_local_newRemote hI) (preserves_pipe hI)
  . apply Preserves.bind preserves_deref
    intro c
    apply Preserves.bind Preserves.get
    intro m
    refine Preserves.ite ?_ (preserves_pipe hI)
    apply Preserves.bind (preserves_connRead hI)
    intro nread
    exact Preserves.ite (preserves_server_newRemote hI) Preserves.pure
  . exact Preserves.bind preserves_deref fun _ => Preserves.bind preserves_deref fun _ => preserves_pipe hI

theorem preserves_fireConnect {status : Int} : Preserves I (fireConnect E s status) := by
  have hprepare : Preserves I (preparePipe : Proc κ _) :=
    Preserves.bind (preserves_assign hI (by intro _; rfl)) fun _ => preserves_assign hI (by intro _; rfl)
  have hleft : Preserves I (Server.writeLeft E) := by
    apply Preserves.bind preserves_deref
    intro c
    apply Preserves.ite Preserves.pure
    apply Preserves.bind (preserves_connWrite hI)
    intro nwrite
    refine Preserves.ite Preserves.pure (Preserves.ite ?_ ?_)
    . exact Preserves.bind (preserves_tcpConnectionFree hI) fun _ => Preserves.pure
    . exact Preserves.bind (preserves_assign hI (by intro _; rfl)) fun _ => Preserves.pure
  apply Preserves.bind preserves_deref
  intro _
  cases s with
  | client => exact Preserves.pure
  | remote =>
    refine Preserves.bind (preserves_logIo hI (by simp)) fun _ => ?_
    apply Preserves.bind preserves_deref
    intro _
    apply Preserves.bind preserves_deref
    intro _
    apply Preserves.ite Preserves.pure
    split
    . exact Preserves.bind hleft fun _ => Preserves.ite hprepare Preserves.pure
    . exact hprepare

theorem preserves_handleTcpConnection : Preserves I (handleTcpConnection E s) := by
  apply Preserves.bind preserves_deref
  intro c
  apply Preserves.ite Preserves.pure
  apply Preserves.bind Preserves.get
  intro m
  split
  . exact Preserves.pure
  . refine Preserves.bind (preserves_assign hI (by intro _; rfl)) fun _ => ?_
    exact Preserves.bind (preserves_fireConnect hI) fun _ => Preserves.pure
  . refine Preserves.bind (preserves_assign hI (by intro _; rfl)) fun _ => ?_
    apply Preserves.bind (preserves_fireConnect hI)
    intro _
    exact Preserves.bind (preserves_fireClose hI) fun _ => Preserves.pure

theorem preserves_handler {r : Ready} : Preserves I (handler E s r) := by
  cases r with
  | read =>
    apply Preserves.bind (preserves_handleTcpConnection hI)
    intro status
    apply Preserves.ite Preserves.pure
    apply Preserves.bind preserves_deref
    intro _
    cases s with
    | client => exact preserves_tcpClientOnRead hI
    | remote =>
      refine Preserves.bind preserves_deref fun _ => ?_
      exact Preserves.bind preserves_deref fun _ => preserves_pipe hI
  | write =>
    apply Preserves.bind (preserves_handleTcpConnection hI)
    intro status
    apply Preserves.ite Preserves.pure
    apply Preserves.bind preserves_deref
    intro c
    apply Preserves.ite
    . exact Preserves.bind (preserves_tcpPipeWrite hI) fun _ => Preserves.pure
    . exact Preserves.bind preserves_deref fun _ => Preserves.pure
  | timeout =>
    refine Preserves.bind (preserves_assign hI (by intro _; rfl)) fun _ => ?_
    refine Preserves.bind ?_ fun _ => preserves_fireClose hI
    apply Preserves.bind preserves_deref
    intro _
    cases s with
    | client => exact Preserves.bind preserves_deref fun _ => Preserves.pure
    | remote =>
      refine Preserves.bind preserves_deref fun _ => ?_
      exact Preserves.bind preserves_deref fun _ => Preserves.pure

end

theorem persistent_remote : Persistent fun m : Machine κ => m.remote = true where
  upd _ _ _ _ h := h
  shadowsocks _ _ _ h := h
  socks5 _ _ _ _ h := h
  log _ _ _ h := h
  sdsfree _ _ _ _ h := h
  popReads _ h := h
  popWrites _ h := h
  discount _ h := h
  addRemote _ _ _ _ _ := rfl

end Xsocks
