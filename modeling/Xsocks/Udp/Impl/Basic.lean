import Xsocks.Tcp.Impl.Basic

/-!
This module contains the state the UDP handlers work on: the socket of the server, the `udpClient` a
handler runs for with its `udpRemote`, and the outcomes of the system calls it is going to make.
-/

namespace Xsocks.Udp

inductive App where
  | xsServer
  | xsTunnel
  deriving DecidableEq

/-- `HOSTNAME_MAX_LEN` bytes are reserved for `config->tunnel_addr`. -/
structure HostName where
  text : CString
  length_lt : text.bytes.length < HOSTNAME_MAX_LEN

/-- The program, its configuration and the libraries it is linked with. -/
structure Env (κ : Type) where
  app : App
  crypto : Crypto κ
  inet : Inet
  timeout : Int
  ipv6First : Bool
  remoteAddr : CString
  remotePort : Nat
  tunnelAddr : HostName
  tunnelPort : Nat

/-- A program with the ports and the timeout it has unless it is told otherwise. -/
def Env.default {κ : Type} (app : App) (crypto : Crypto κ) (inet : Inet) : Env κ where
  app := app
  crypto := crypto
  inet := inet
  timeout := 60
  ipv6First := false
  -- "127.0.0.1"
  remoteAddr := .ofBuf [49, 50, 55, 46, 48, 46, 48, 46, 49]
  remotePort := 8388
  -- "8.8.8.8"
  tunnelAddr := ⟨.ofBuf [56, 46, 56, 46, 56, 46, 56], by decide⟩
  tunnelPort := 53

inductive SockAddr where
  | unset
  | inet (f : Family) (addr : List Byte) (port : Nat)
  deriving DecidableEq

inductive Side where
  | server
  | remote
  deriving DecidableEq

inductive Proto where
  | raw
  | shadowsocks (addrbufDest : List Byte)
  deriving DecidableEq

structure UdpConn where
  proto : Proto
  /-- Cleared by `udpClose`. While it is set, the read event is in the loop. -/
  live : Bool
  timer : Timer

structure UdpClient where
  live : Bool
  remote : Bool
  /-- The connection of the remote, which is freed together with it. -/
  conn : UdpConn
  saClient : SockAddr
  saRemote : SockAddr

inductive Io where
  /-- What `recvfrom` put into the buffer. -/
  | recv (c : Side) (sa : SockAddr) (data : List Byte)
  /-- A datagram that `sendto` accepted. -/
  | send (c : Side) (sa : SockAddr) (data : List Byte)
  | remoteFree
  | clientFree
  deriving DecidableEq

/-- The result of `recvfrom`: a failure or a datagram and where it came from. -/
inductive RecvRes where
  | error
  | datagram (sa : SockAddr) (data : List Byte)
  deriving DecidableEq

/-- The outcomes of what one event handler asks its environment for. -/
structure Inputs where
  recv : RecvRes := .error
  create : Bool := true
  /-- The results for a host and a port, `none` is a failure. -/
  getaddrinfo : CString → Nat → Option (List SockAddr) := fun _ _ => none
  /-- `sendto` accepts the datagram, which it does as a whole or not at all. -/
  sendto : Bool := true
  /-- What the cipher library draws for `encrypt_all`. -/
  nonce : List Byte := []
  uninit : Uninit

structure Machine where
  server : UdpConn
  remoteCount : Int
  client : UdpClient
  inp : Inputs
  trace : List Io

abbrev Proc := EStateM Fault Machine

namespace Machine

def conn (m : Machine) : Side → UdpConn
  | .server => m.server
  | .remote => m.client.conn

def upd (m : Machine) (s : Side) (f : UdpConn → UdpConn) : Machine :=
  match s with
  | .server => { m with server := f m.server }
  | .remote => { m with client := { m.client with conn := f m.client.conn } }

def updClient (m : Machine) (f : UdpClient → UdpClient) : Machine :=
  { m with client := f m.client }

/-- The server asks for the address of the sender, in `client->sa_client`. -/
def sender (m : Machine) (s : Side) (sa : SockAddr) : Machine :=
  match s with
  | .server => m.updClient fun c => { c with saClient := sa }
  | .remote => m

def log (m : Machine) (io : Io) : Machine :=
  { m with trace := m.trace ++ [io] }

end Machine

def logIo (io : Io) : Proc Unit :=
  modify fun m => m.log io

def derefClient : Proc UdpClient := do
  let m ← get
  if m.client.live = false then throw .useAfterFree else return m.client

/-- `c->...`, where `c` is the connection of the server or of the remote of the client. -/
def deref (s : Side) : Proc UdpConn := do
  let m ← get
  match s with
  | .server => return m.server
  | .remote =>
    if m.client.remote = false then throw .nullDeref
    else if m.client.conn.live = false then throw .useAfterFree
    else return m.client.conn

def assign (s : Side) (f : UdpConn → UdpConn) : Proc Unit := do
  let _ ← deref s
  modify fun m => m.upd s f

end Xsocks.Udp
