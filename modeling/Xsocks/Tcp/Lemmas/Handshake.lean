import Xsocks.Tcp.Lemmas.Relay
import Xsocks.Tcp.Lemmas.Shadowsocks

/-!
This module contains the state of a client that has just been accepted, the rules for the functions
that make a remote for it, and the runs of the handlers of one client.
-/

namespace Xsocks

open Wp Run

variable {κ : Type}

/-- What `tcpShadowsocksConnNew` makes with the contexts for encryption and decryption. -/
def TcpShadowsocks.new (ctx : κ × κ) : TcpShadowsocks κ where
  state := .INIT
  tmpBuf := []
  tmpBufOff := 0
  addrbufDest := []
  eCtx := ctx.1
  dCtx := ctx.2

namespace Machine

def accepted (E : Env κ) (type : ConnType) (inp : Inputs κ) : Machine κ where
  conn
    | .client => { TcpConn.new (.new type inp) true E.timeout with re := true }
    | .remote => .absent
  remote := false
  clientCount := 1
  remoteCount := 0
  inp := inp
  trace := []

theorem alive_accepted (E : Env κ) (type : ConnType) (inp : Inputs κ)
    : (accepted E type inp).Alive :=
  ⟨⟨rfl, by simp⟩, by simp [accepted]⟩

def dialled (m : Machine κ) (E : Env κ) (type : ConnType) (host : CString) (port : Nat)
    : Machine κ :=
  let m := (m.log (.connect host port)).addRemote (.new (.new type m.inp) false E.timeout)
  let m := m.upd .client fun c => { c with timer := c.timer.set (-1) }
  m.upd .client fun c => { c with re := false }

def connected (m : Machine κ) : Machine κ :=
  (m.upd .remote fun c => { c with connected := true, we := false }).log (.onConnect .remote OK)

def prepared (m : Machine κ) : Machine κ :=
  (m.upd .remote fun c => { c with re := true }).upd .client fun c => { c with re := true }

variable {m : Machine κ} {E : Env κ} {type : ConnType} {host : CString} {port : Nat}

@[simp]
theorem remote_dialled : (m.dialled E type host port).remote = true := by
  rfl

@[simp]
theorem trace_dialled : (m.dialled E type host port).trace = m.trace ++ [.connect host port] := by
  rfl

theorem conn_addRemote (c : TcpConn κ) (s : Side)
    : (m.addRemote c).conn s = if s = .remote then c else m.conn s := by
  cases s <;> rfl

theorem conn_dialled_client
    : (m.dialled E type host port).conn .client
        = { m.conn .client with timer := (m.conn .client).timer.set (-1), re := false } := by
  simp [dialled, conn_addRemote]

@[simp]
theorem rbuf_dialled
    : ((m.dialled E type host port).conn .client).rbuf = (m.conn .client).rbuf := by
  rw [conn_dialled_client]

@[simp]
theorem rbufOff_dialled
    : ((m.dialled E type host port).conn .client).rbufOff = (m.conn .client).rbufOff := by
  rw [conn_dialled_client]

theorem conn_dialled_remote
    : (m.dialled E type host port).conn .remote = .new (.new type m.inp) false E.timeout := by
  simp [dialled, conn_addRemote]

theorem usable_dialled (h : m.Usable .client) (s : Side) : (m.dialled E type host port).Usable s := by
  cases s with
  | client => exact ⟨h.live, by simp⟩
  | remote => exact ⟨rfl, by simp⟩

theorem alive_dialled (h : m.Usable .client) : (m.dialled E type host port).Alive :=
  ⟨usable_dialled h _, fun _ => usable_dialled h _⟩

end Machine

def App.clientType : App → ConnType
  | .xsLocal => .SOCKS5
  | .xsServer => .SHADOWSOCKS
  | .xsRedir => .RAW

theorem tcpServerOnAccept_eq (E : Env κ) (happ : E.app ≠ .xsRedir) (inp : Inputs κ)
    : tcpServerOnAccept E (TcpServer.new.machine .absent inp)
        = .ok () (.accepted E E.app.clientType inp) := by
  have hconn : ∀ type, ((TcpServer.new.machine .absent inp).addClient
      (.new (.new type inp) true E.timeout)).upd .client (fun c => { c with re := true })
        = .accepted E type inp := by
    intro type
    simp only [Machine.upd, Machine.addClient, Machine.accepted, Machine.mk.injEq]
    refine ⟨?_, rfl, rfl, rfl, rfl, rfl⟩
    funext s
    cases s <;> rfl
  cases heq : E.app with
  | xsLocal =>
    rw [App.clientType, ← hconn, tcpServerOnAccept, heq]
    rfl
  | xsServer =>
    rw [App.clientType, ← hconn, tcpServerOnAccept, heq]
    rfl
  | xsRedir => contradiction

section

variable {m : Machine κ} {F : Fault → Machine κ → Prop} {E : Env κ}

theorem wp_tcpRemoteNew (h : m.Usable .client) (type : ConnType) (host : CString) (port : Nat)
    (Q : Bool → Machine κ → Prop)
    : wp (tcpRemoteNew E type host port) Q F m
        ↔ if m.inp.nonBlockConnect then Q true (m.dialled E type host port)
          else Q false (m.log (.connect host port)) := by
  rw [tcpRemoteNew, wp_bind, wp_logIo, wp_bind, wp_deref (by simpa using h), wp_bind, wp_get,
    Machine.inp_log]
  cases hinp : m.inp.nonBlockConnect with
  | false => simp
  | true =>
    have hc : ((m.log (.connect host port)).addRemote
        (.new (.new type m.inp) false E.timeout)).Usable .client := by
      exact ⟨h.live, by simp⟩
    simp [tcpSetTimeout, delEventRead, hc, Machine.dialled]

theorem wp_parseDest (addrbufDest : List Byte) (Q : Socks5Addr → Machine κ → Prop)
    : wp (parseDest E addrbufDest) Q F m
        ↔
      match parseAddr E.inet addrbufDest with
      | some addr => Q addr m
      | none => F .uninitialised m := by
  unfold parseDest parseAddr
  cases socks5AddrParse E.inet (.ofList 0 addrbufDest) addrbufDest.length HOSTNAME_MAX_LEN with
  | some addr => exact wp_pure addr Q F m
  | none => exact wp_throw .uninitialised Q F m

theorem wp_isBypass (hacl : E.acl = true) (ip : CString) {Q : Bool → Machine κ → Prop}
    (hQ : ∀ bypass, Q bypass m)
    : wp (isBypass E ip) Q F m := by
  rw [isBypass, aclMatchHost, if_pos hacl, wp_bind, wp_pure]
  split
  . exact hQ _
  . exact hQ _

theorem Local.wp_bypass_matched (hacl : E.acl = true) (atyp : Socks5Atyp) (host : CString)
    (hostMatch : Int) {Q : Bool → Machine κ → Prop} (hQ : ∀ bypass, Q bypass m)
    : wp (if 0 < hostMatch then pure true
        else if hostMatch < 0 then pure false
        else if atyp ≠ .domain then isBypass E host
        else
          match E.anetResolve host with
          | some ip => isBypass E ip
          | none => pure false) Q F m := by
  split
  . exact hQ _
  . split
    . exact hQ _
    . split
      . exact wp_isBypass hacl host hQ
      . split
        . next ip _ => exact wp_isBypass hacl ip hQ
        . exact hQ _

theorem Local.wp_bypass (atyp : Socks5Atyp) (host : CString) {Q : Bool → Machine κ → Prop}
    (hQ : ∀ bypass, Q bypass m)
    : wp (Local.bypass E atyp host) Q F m := by
  rw [Local.bypass]
  split
  . exact hQ _
  . next hacl =>
    have hacl : E.acl = true := by simpa using hacl
    dsimp only
    by_cases hatyp : atyp = .domain
    . rw [if_pos hatyp, wp_bind, aclMatchHost, if_pos hacl, wp_pure]
      exact wp_bypass_matched hacl atyp host _ hQ
    . rw [if_neg hatyp, wp_bind, wp_pure]
      exact wp_bypass_matched hacl atyp host 0 hQ

end

/-- One event of a pair. It does not happen if it is not registered. -/
def pairStep (E : Env κ) (m : Machine κ) (a : (Side × Ready) × Inputs κ)
    : Except Fault (Machine κ) :=
  if (m.conn a.1.1).registered a.1.2 then exec (handler E a.1.1 a.1.2) (m.withInp a.2) else .ok m

def Io.destination : Io → Option (CString × Nat)
  | connect host port => some (host, port)
  | _ => none

def Io.connects (trace : List Io) : List (CString × Nat) :=
  trace.filterMap destination

section

variable {m : Machine κ} {F : Fault → Machine κ → Prop} {E : Env κ} {s : Side}

theorem run_dead (h : m.Dead) {as : List ((Side × Ready) × Inputs κ)}
    (has : ∀ a ∈ as, a.1.2 ≠ .timeout)
    : run (pairStep E) m as = .ok m := by
  induction as with
  | nil => rfl
  | cons a as ih =>
    have hstep : pairStep E m a = .ok m := by
      rw [pairStep, if_neg]
      rcases a with ⟨⟨s, r⟩, inp⟩
      cases r with
      | read => simp [TcpConn.registered, (h s).re]
      | write => simp [TcpConn.registered, (h s).we]
      | timeout => exact absurd rfl (has _ (List.mem_cons_self ..))
    rw [run, hstep]
    exact ih fun a ha => has a (List.mem_cons_of_mem _ ha)

theorem pairStep_ok {r : Ready} {inp : Inputs κ} {Q : Machine κ → Prop}
    (hreg : (m.conn s).registered r = true)
    (h : wp (handler E s r) (fun _ m => Q m) (fun _ _ => False) (m.withInp inp))
    : ∃ m', pairStep E m ((s, r), inp) = .ok m' ∧ Q m' := by
  obtain ⟨m', heq, hQ⟩ := exists_ok_unit h
  refine ⟨m', ?_, hQ⟩
  rw [pairStep, if_pos hreg, exec, heq]

theorem post_of_pairStep {r : Ready} {inp : Inputs κ} {Q : Machine κ → Prop} {m' : Machine κ}
    (hreg : (m.conn s).registered r = true)
    (h : wp (handler E s r) (fun _ m => Q m) (fun _ _ => True) (m.withInp inp))
    (heq : pairStep E m ((s, r), inp) = .ok m')
    : Q m' := by
  rw [pairStep, if_pos hreg, exec] at heq
  split at heq
  . next heq' =>
    simp only [Except.ok.injEq] at heq
    rw [← heq]
    exact post_of_ok h heq'
  . contradiction

theorem wp_tcpConnReadHandler (hs : m.Usable s) (hconn : (m.conn s).connected = true)
    (Q : Unit → Machine κ → Prop)
    : wp (tcpConnReadHandler E s) Q F m ↔ wp (fireRead E s) Q F m := by
  simp [tcpConnReadHandler, handleTcpConnection, hs, hconn]

theorem wp_tcpConnWriteHandler_connected (h : m.Usable .remote)
    (hconn : (m.conn .remote).connected = false) (hconnect : m.inp.connect = .ok)
    {Q : Unit → Machine κ → Prop}
    (hQ : wp (tcpRemoteOnConnect E OK)
      (fun _ m' => m'.Usable .remote ∧ (m'.conn .remote).piped = false ∧ Q () m') F m.connected)
    : wp (tcpConnWriteHandler E .remote) Q F m := by
  rw [tcpConnWriteHandler, handleTcpConnection, wp_bind, wp_bind, wp_deref h, hconn]
  rw [if_neg (by simp), wp_bind, wp_get, hconnect, tcpCheckConnectDone, wp_bind, wp_assign h, wp_bind,
    fireConnect, wp_bind, wp_deref (by simpa using h), wp_bind, wp_logIo, ← Machine.connected]
  apply wp_mono hQ
  . rintro _ m' ⟨hs, hpiped, hQ⟩
    rw [wp_pure, if_neg (by simp), wp_bind, wp_deref hs, hpiped, if_neg (by simp), fireWrite, wp_bind,
      wp_deref hs, wp_pure]
    exact hQ
  . intro f m' hF
    exact hF

theorem wp_preparePipe (h : m.Alive) (hr : m.remote = true) (Q : Unit → Machine κ → Prop)
    : wp preparePipe Q F m ↔ Q () m.prepared := by
  simp [preparePipe, addEventRead, h.remote hr, h.client, Machine.prepared]

theorem wp_fireRead_client (h : m.Usable .client) (Q : Unit → Machine κ → Prop)
    : wp (fireRead E .client) Q F m ↔ wp (tcpClientOnRead E) Q F m := by
  simp [fireRead, h]

theorem wp_connWrite_all (h : m.Alive) {s : Side} (hs : m.Usable s) (hraw : (m.conn s).proto = .raw)
    {room : Nat} (hwrites : m.inp.writes.headD [] = [.count room]) {buf : List Byte}
    (hroom : buf.length ≤ room) (Q : Int → Machine κ → Prop)
    : wp (connWrite E s buf buf.length) Q F m
        ↔ Q buf.length ((m.log (.write s buf.length)).sent s buf) := by
  rw [connWrite, wp_bind, wp_deref hs, wp_bind, wp_logIo, hraw]
  dsimp only
  exact wp_tcpWrite_all (m := m.log (.write s buf.length)) (by simpa using h) (by simpa using hs)
    hwrites hroom Q

end

def Readable (segs : List (List Byte)) : Prop :=
  ∀ seg ∈ segs, seg ≠ [] ∧ seg.length ≤ NET_IOBUF_LEN

theorem Readable.sublist {segs segs' : List (List Byte)} (h : Readable segs) (hsub : segs'.Sublist segs)
    : Readable segs' :=
  fun seg hmem => h seg (hsub.subset hmem)

/--
The inputs of a handler that can read `seg`, make a remote and have `room` bytes of each write
accepted.
-/
def arrival (inp : Inputs κ) (uninit : Uninit) (room : Nat) (seg : List Byte) : Inputs κ :=
  { inp with
      reads := [[.data seg]]
      writes := [[.count room], [.count room]]
      connect := .ok
      nonBlockConnect := true
      uninit := uninit }

theorem netRead_arrival (m : Machine κ) (inp : Inputs κ) (uninit : Uninit) (room : Nat)
    {seg : List Byte} (hseg : seg ≠ []) (hlen : seg.length ≤ NET_IOBUF_LEN)
    : (m.withInp (arrival inp uninit room seg)).netRead NET_IOBUF_LEN
        = ⟨seg.length, false, seg⟩ :=
  netTcpRead_data hseg (by omega)

end Xsocks
