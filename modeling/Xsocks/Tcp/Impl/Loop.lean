import Xsocks.Tcp.Impl.App

/-!
This module contains the event handlers of `protocol/tcp.c` and the event loop that runs them: a
server with its clients, where each step is the handler of one event that is registered.
-/

namespace Xsocks

variable {κ : Type}

def fireRead (E : Env κ) (s : Side) : Proc κ Unit := do
  let _ ← deref s
  match s with
  | .client => tcpClientOnRead E
  | .remote => tcpRemoteOnRead E

def fireConnect (E : Env κ) (s : Side) (status : Int) : Proc κ Unit := do
  let _ ← deref s
  match s with
  | .client => return
  | .remote =>
    logIo (.onConnect s status)
    tcpRemoteOnConnect E status

def fireWrite (s : Side) : Proc κ Unit := do
  let _ ← deref s

/-- The result of `tcpCheckConnectDone`: `none` is an error, otherwise `done`. -/
def tcpCheckConnectDone : ConnectRes → Option Bool
  | .ok => some true
  | .error .EISCONN => some true
  | .error .EALREADY => some false
  | .error .EINPROGRESS => some false
  -- `EWOULDBLOCK`
  | .error .EAGAIN => some false
  | .error (.other _) => none

def handleTcpConnection (E : Env κ) (s : Side) : Proc κ Int := do
  let c ← deref s
  if c.connected then return OK
  else
    let m ← get
    match tcpCheckConnectDone m.inp.connect with
    | some false => return ERR
    | some true =>
      assign s fun c => { c with connected := true, we := false }
      fireConnect E s OK
      return OK
    | none =>
      setErr s .TCP_ERROR_CONNECT
      fireConnect E s ERR
      fireClose s
      return ERR

def tcpConnReadHandler (E : Env κ) (s : Side) : Proc κ Unit := do
  let status ← handleTcpConnection E s
  if status ≠ OK then return else fireRead E s

def tcpConnWriteHandler (E : Env κ) (s : Side) : Proc κ Unit := do
  let status ← handleTcpConnection E s
  if status ≠ OK then return
  else
    let c ← deref s
    if c.piped then
      let _ ← tcpPipeWrite E s
    else fireWrite s

def tcpConnTimeoutHandler (s : Side) : Proc κ Unit := do
  setErr s .TCP_ERROR_TIMEOUT
  fireTimeout s
  fireClose s

inductive Ready where
  | read
  | write
  | timeout
  deriving DecidableEq

def TcpConn.registered (c : TcpConn κ) : Ready → Bool
  | .read => c.re
  | .write => c.we
  | .timeout => c.timer.registered

def handler (E : Env κ) (s : Side) : Ready → Proc κ Unit
  | .read => tcpConnReadHandler E s
  | .write => tcpConnWriteHandler E s
  | .timeout => tcpConnTimeoutHandler s

/-- A `tcpClient` with its connections, and what has been done for it. -/
structure Pair (κ : Type) where
  conn : Side → TcpConn κ
  remote : Bool
  trace : List Io

structure TcpServer (κ : Type) where
  clientCount : Int
  remoteCount : Int
  pairs : List (Pair κ)
  faults : List Fault
  /-- A fault other than a use after free has ended the process. -/
  crashed : Bool

inductive Event where
  | accept
  | ready (client : Nat) (s : Side) (r : Ready)
  deriving DecidableEq

def TcpConn.absent : TcpConn κ :=
  { TcpConn.new .raw true 0 with live := false }

def Pair.absent : Pair κ where
  conn := fun _ => .absent
  remote := false
  trace := []

namespace TcpServer

def new : TcpServer κ where
  clientCount := 0
  remoteCount := 0
  pairs := []
  faults := []
  crashed := false

def machine (srv : TcpServer κ) (p : Pair κ) (inp : Inputs κ) : Machine κ where
  conn := p.conn
  remote := p.remote
  clientCount := srv.clientCount
  remoteCount := srv.remoteCount
  inp := inp
  trace := p.trace

def store (srv : TcpServer κ) (i : Nat) (m : Machine κ) : TcpServer κ :=
  { srv with
      clientCount := m.clientCount
      remoteCount := m.remoteCount
      pairs := srv.pairs.set i { conn := m.conn, remote := m.remote, trace := m.trace } }

/-- The use of a freed connection is noted, any other fault ends the process. -/
def fault (srv : TcpServer κ) (f : Fault) : TcpServer κ :=
  { srv with faults := srv.faults ++ [f], crashed := srv.crashed || f != .useAfterFree }

def exec (srv : TcpServer κ) (i : Nat) (x : Proc κ Unit) (inp : Inputs κ) : TcpServer κ :=
  match srv.pairs[i]? with
  | none => srv
  | some p =>
    match x (srv.machine p inp) with
    | .ok _ m => srv.store i m
    | .error f m => (srv.store i m).fault f

def step (E : Env κ) (srv : TcpServer κ) (a : Event × Inputs κ) : TcpServer κ :=
  if srv.crashed then srv
  else
    match a.1 with
    | .accept =>
      { srv with pairs := srv.pairs ++ [Pair.absent] }.exec srv.pairs.length (tcpServerOnAccept E) a.2
    | .ready i s r =>
      match srv.pairs[i]? with
      | none => srv
      | some p => if (p.conn s).registered r then srv.exec i (handler E s r) a.2 else srv

end TcpServer

end Xsocks
