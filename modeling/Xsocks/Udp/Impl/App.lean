import Xsocks.Udp.Impl.Conn

/-!
This module contains the rest of `module_udp.c`, the callbacks of `server.c` and `tunnel.c`, and the event
loop that runs them: a server with its clients, one for each request it has read.
-/

namespace Xsocks.Udp

variable {κ : Type}

inductive ConnType where
  | SHADOWSOCKS
  | RAW
  deriving DecidableEq

def UdpConn.new (type : ConnType) (timeout : Int) : UdpConn where
  proto :=
    match type with
    | .SHADOWSOCKS => .shadowsocks []
    | .RAW => .raw
  live := true
  timer := .init timeout

/-- What `udpClientNew` makes. There is no connection behind `client->remote`. -/
def UdpClient.new : UdpClient where
  live := true
  remote := false
  conn := { UdpConn.new .RAW 0 with live := false }
  saClient := .unset
  saRemote := .unset

def App.serverType : App → ConnType
  | .xsServer => .SHADOWSOCKS
  | .xsTunnel => .RAW

/--
`netUdpGetSockAddrEx`, which looks at the first result only: one of the other family leaves `sa` as it is
and is no error.
-/
def netUdpGetSockAddrEx (ipv6First : Bool) (servinfo : Option (List SockAddr)) (sa : SockAddr)
    : Option SockAddr :=
  let preferAf := if ipv6First then Family.inet6 else Family.inet
  match servinfo with
  | none => none
  | some [] => none
  | some (.unset :: _) => some sa
  | some (.inet f addr port :: _) => if f = preferAf then some (.inet f addr port) else some sa

/-- `false` is a `NULL` result. -/
def udpRemoteNew (E : Env κ) (type : ConnType) (host : CString) (port : Nat) : Proc Bool := do
  let c ← derefClient
  let m ← get
  if m.inp.create = false then return false
  else
    modify fun m => m.updClient fun c => { c with remote := true, conn := .new type E.timeout }
    match netUdpGetSockAddrEx E.ipv6First (m.inp.getaddrinfo host port) c.saRemote with
    | none =>
      udpRemoteFree
      return false
    | some sa =>
      modify fun m => m.updClient fun c => { c with saRemote := sa }
      modify fun m => { m with remoteCount := m.remoteCount + 1 }
      return true

/-- `addrbuf_dest` of the server parsed again, where the result is not checked. -/
def parseDest (E : Env κ) : Proc Socks5Addr := do
  let conn ← deref .server
  match conn.proto with
  | .raw => throw .badCast
  | .shadowsocks addrbufDest =>
    match
      socks5AddrParse E.inet (.ofList 0 addrbufDest) addrbufDest.length HOSTNAME_MAX_LEN
    with
    | some addr => return addr
    | none => throw .uninitialised

namespace Server

/-- `udpServerOnRead` of `server.c` once there is a client. -/
def udpServerOnRead (E : Env κ) : Proc Unit := do
  let nread ← connRead E .server
  match nread with
  | none => udpConnectionFree
  | some buf =>
    let addr ← parseDest E
    let ok ← udpRemoteNew E .RAW (.ofBuf addr.host) addr.port
    if ok = false then udpConnectionFree
    else
      let c ← derefClient
      let _ ← connWrite E .remote buf c.saRemote

end Server

namespace Tunnel

/-- `udpServerOnRead` of `tunnel.c` once there is a client. -/
def udpServerOnRead (E : Env κ) : Proc Unit := do
  let nread ← connRead E .server
  match nread with
  | none => udpConnectionFree
  | some buf =>
    let ok ← udpRemoteNew E .SHADOWSOCKS E.remoteAddr E.remotePort
    if ok = false then udpConnectionFree
    else
      udpShadowsocksConnInit E .remote E.tunnelAddr.text E.tunnelPort
      let c ← derefClient
      let _ ← connWrite E .remote buf c.saRemote

end Tunnel

def udpServerOnRead (E : Env κ) : Proc Unit :=
  match E.app with
  | .xsServer => Server.udpServerOnRead E
  | .xsTunnel => Tunnel.udpServerOnRead E

def udpRemoteOnRead (E : Env κ) : Proc Unit := do
  let nread ← connRead E .remote
  match nread with
  | none => return
  | some buf =>
    let c ← derefClient
    let _ ← connWrite E .server buf c.saClient
    udpConnectionFree

def udpConnReadHandler (E : Env κ) : Proc Unit := do
  let _ ← deref .remote
  udpRemoteOnRead E

def udpConnTimeoutHandler : Proc Unit := do
  fireTimeout .remote
  fireClose .remote

structure Session where
  client : UdpClient
  trace : List Io

def Session.new : Session where
  client := .new
  trace := []

structure UdpServer where
  conn : UdpConn
  remoteCount : Int
  sessions : List Session
  faults : List Fault
  /-- A fault other than a use after free has ended the process. -/
  crashed : Bool

inductive Event where
  | request
  | reply (client : Nat)
  | timeout (client : Nat)
  deriving DecidableEq

namespace UdpServer

def new (E : Env κ) : UdpServer where
  conn := .new E.app.serverType E.timeout
  remoteCount := 0
  sessions := []
  faults := []
  crashed := false

def machine (srv : UdpServer) (p : Session) (inp : Inputs) : Machine where
  server := srv.conn
  remoteCount := srv.remoteCount
  client := p.client
  inp := inp
  trace := p.trace

def store (srv : UdpServer) (i : Nat) (m : Machine) : UdpServer :=
  { srv with
      conn := m.server
      remoteCount := m.remoteCount
      sessions := srv.sessions.set i { client := m.client, trace := m.trace } }

/-- The use of what has been freed is noted, any other fault ends the process. -/
def fault (srv : UdpServer) (f : Fault) : UdpServer :=
  { srv with faults := srv.faults ++ [f], crashed := srv.crashed || f != .useAfterFree }

def exec (srv : UdpServer) (i : Nat) (x : Proc Unit) (inp : Inputs) : UdpServer :=
  match srv.sessions[i]? with
  | none => srv
  | some p =>
    match x (srv.machine p inp) with
    | .ok _ m => srv.store i m
    | .error f m => (srv.store i m).fault f

/-- An event whose handler is not registered does not happen. -/
def step (E : Env κ) (srv : UdpServer) (a : Event × Inputs) : UdpServer :=
  if srv.crashed then srv
  else
    match a.1 with
    | .request =>
      { srv with sessions := srv.sessions ++ [Session.new] }.exec srv.sessions.length (udpServerOnRead E) a.2
    | .reply i =>
      match srv.sessions[i]? with
      | none => srv
      | some p => if p.client.conn.live then srv.exec i (udpConnReadHandler E) a.2 else srv
    | .timeout i =>
      match srv.sessions[i]? with
      | none => srv
      | some p => if p.client.conn.timer.registered then srv.exec i udpConnTimeoutHandler a.2 else srv

/-- `step` as an action of a run. No event fails, what goes wrong is in `faults`. -/
def next (E : Env κ) (srv : UdpServer) (a : Event × Inputs) : Except Fault UdpServer :=
  .ok (srv.step E a)

end UdpServer

end Xsocks.Udp
