import Mathlib.Logic.Function.Basic
import Xsocks.Protocol.Impl.Crypto
import Xsocks.Protocol.Impl.Socks5

/-!
This module contains the state the TCP handlers work on: the two connections of a `tcpClient` and
its `tcpRemote`, the counters of the server they belong to, and the outcomes of the system calls the
handlers are going to make.
-/

namespace Xsocks

/-- The connection of a `tcpClient` or the one of its `tcpRemote`. -/
inductive Side where
  | client
  | remote
  deriving DecidableEq

inductive Fault where
  /-- A field of a connection that has been freed was used. -/
  | useAfterFree
  /-- `NULL->field` -/
  | nullDeref
  /-- A handler of a `tcpConn` subtype runs on a connection of another type. -/
  | badCast
  /-- `memcpy` with a negative length. -/
  | memcpyLength
  /-- `brealloc` on memory the buffer does not own. -/
  | brealloc
  /-- A variable was used that was never assigned. -/
  | uninitialised
  deriving DecidableEq

structure TimeEvent where
  ms : Int
  /-- `e->el` is set, i.e. the event is in the loop. -/
  registered : Bool
  deriving DecidableEq

/--
The timer of a connection after `tcpInit`: there is an event exactly if the timeout is positive.
-/
structure Timer where
  timeout : Int
  te : Option TimeEvent
  /-- Events of this connection that no pointer leads to any more. -/
  lost : List TimeEvent
  isSome_te : te.isSome = decide (0 < timeout)

inductive ShadowsocksState where
  | INIT
  | HANDSHAKE
  | STREAM
  deriving DecidableEq

structure TcpShadowsocks (κ : Type) where
  state : ShadowsocksState
  /-- `tmp_buf->data[0..tmp_buf->len)` -/
  tmpBuf : List Byte
  tmpBufOff : Nat
  addrbufDest : List Byte
  eCtx : κ
  dCtx : κ

inductive Socks5State where
  | INIT
  | HANDSHAKE
  | STREAM
  deriving DecidableEq

inductive Socks5Flag where
  | SERVER
  | CLIENT
  deriving DecidableEq

/-- An `sds` that was created, or a pointer that was never assigned one (0 is `NULL`). -/
inductive Sds where
  | created (bytes : List Byte)
  | pointer (address : Nat)
  deriving DecidableEq

structure TcpSocks5 where
  flags : Socks5Flag
  state : Socks5State
  addrbufDest : Sds

/-- The handlers a connection was set up with, and the fields that belong to them. -/
inductive Proto (κ : Type) where
  | raw
  | shadowsocks (c : TcpShadowsocks κ)
  | socks5 (c : TcpSocks5)

inductive TcpError where
  | none
  | TCP_ERROR_READ
  | TCP_ERROR_WRITE
  | TCP_ERROR_TIMEOUT
  | TCP_ERROR_CLOSED
  | TCP_ERROR_CONNECT
  | ERROR_SHADOWSOCKS_ENCRYPT
  | ERROR_SHADOWSOCKS_DECRYPT
  | ERROR_SHADOWSOCKS_SOCKS5
  | ERROR_SOCKS5_NOT_SUPPORTED
  | ERROR_SOCKS5_AUTH
  | ERROR_SOCKS5_HANDSHAKE
  deriving DecidableEq

structure TcpConn (κ : Type) where
  proto : Proto κ
  /-- Cleared by `tcpClose`. -/
  live : Bool
  connected : Bool
  piped : Bool
  timer : Timer
  re : Bool
  we : Bool
  rbuf : Mem Byte
  rbufLen : Int
  rbufOff : Nat
  /-- Offset in the `rbuf` of a connection, `none` is `NULL`. -/
  wbuf : Option (Side × Nat)
  wbufLen : Int
  err : TcpError
  pipe : Option Side

inductive Io where
  | recv (c : Side) (data : List Byte)
  /-- Bytes that the socket of a connection accepted from `netTcpWrite`. -/
  | send (c : Side) (data : List Byte)
  | write (c : Side) (bufLen : Int)
  | pipe (src dst : Side)
  | connect (host : CString) (port : Nat)
  | onConnect (c : Side) (status : Int)
  | onClose (c : Side)
  | sdsfree (s : Sds)
  | connectionFree
  deriving DecidableEq

inductive ConnectRes where
  | ok
  | error (errno : Errno)
  deriving DecidableEq

/-- The outcomes of what one event handler asks its environment for. -/
structure Inputs (κ : Type) where
  reads : List (List ReadRes) := []
  writes : List (List WriteRes) := []
  connect : ConnectRes := .ok
  nonBlockConnect : Bool := true
  /-- The contexts that `ctx_init` makes for encryption and decryption. -/
  ctx : κ × κ
  uninit : Uninit
  /-- What `xs_realloc` leaves in the place of `addrbuf_dest`. -/
  tail : Nat := 0
  dest : Option (CString × Nat) := none

structure Machine (κ : Type) where
  conn : Side → TcpConn κ
  remote : Bool
  clientCount : Int
  remoteCount : Int
  inp : Inputs κ
  trace : List Io

abbrev Proc (κ : Type) := EStateM Fault (Machine κ)

namespace Timer

def del (t : Timer) : Timer where
  timeout := t.timeout
  te := t.te.map fun e => { e with registered := false }
  lost := t.lost
  isSome_te := by simpa using t.isSome_te

/-- `ADD_EVENT_TIME`. The assertion that there is an event holds by `isSome_te`. -/
def add (t : Timer) : Timer where
  timeout := t.timeout
  te := if 0 < t.timeout then t.te.map fun e => { e with registered := true } else t.te
  lost := t.lost
  isSome_te := by
    split
    . simpa using t.isSome_te
    . exact t.isSome_te

/-- `tcpSetTimeout`. The new event is set up with the timeout the connection had before. -/
def set (t : Timer) (timeout : Int) : Timer :=
  let clear := timeout ≤ 0 ∨ timeout ≠ t.timeout
  if h : 0 < timeout then
    {
      timeout := timeout
      te := some { ms := t.timeout * 1000, registered := 0 < t.timeout }
      lost := if clear then t.lost else t.te.toList ++ t.lost
      isSome_te := by simp [h]
    }
  else
    {
      timeout := timeout
      te := none
      lost := t.lost
      isSome_te := by simp [h]
    }

def init (timeout : Int) : Timer :=
  if h : 0 < timeout then
    ⟨timeout, some { ms := timeout * 1000, registered := true }, [], by simp [h]⟩
  else
    ⟨timeout, none, [], by simp [h]⟩

/-- `CLR_EVENT_TIME` of `tcpClose`, after which the timeout is not used again. -/
def clear (t : Timer) : Timer where
  timeout := 0
  te := none
  lost := t.lost
  isSome_te := by simp

def registered (t : Timer) : Bool :=
  t.te.any (·.registered) || t.lost.any (·.registered)

end Timer

namespace Machine

variable {κ : Type}

def upd (m : Machine κ) (s : Side) (f : TcpConn κ → TcpConn κ) : Machine κ :=
  { m with conn := Function.update m.conn s (f (m.conn s)) }

def logs (m : Machine κ) (ios : List Io) : Machine κ :=
  { m with trace := m.trace ++ ios }

def log (m : Machine κ) (io : Io) : Machine κ :=
  m.logs [io]

def popReads (m : Machine κ) : Machine κ :=
  { m with inp := { m.inp with reads := m.inp.reads.tail } }

def popWrites (m : Machine κ) : Machine κ :=
  { m with inp := { m.inp with writes := m.inp.writes.tail } }

/-- `server->client_count--; if (client->remote) server->remote_count--;` -/
def discount (m : Machine κ) : Machine κ :=
  { m with
      clientCount := m.clientCount - 1
      remoteCount := if m.remote then m.remoteCount - 1 else m.remoteCount }

def addClient (m : Machine κ) (c : TcpConn κ) : Machine κ :=
  { m with conn := Function.update m.conn .client c, clientCount := m.clientCount + 1 }

/-- `client->remote = remote` with `remote->conn = c`, and the remote is counted. -/
def addRemote (m : Machine κ) (c : TcpConn κ) : Machine κ :=
  { m with
      conn := Function.update m.conn .remote c
      remote := true
      remoteCount := m.remoteCount + 1 }

end Machine

section

variable {κ : Type}

/--
`c->...`, where `c` is the connection of the client or of the remote it points to.
-/
def deref (s : Side) : Proc κ (TcpConn κ) := do
  let m ← get
  if s = .remote ∧ m.remote = false then throw .nullDeref
  else if (m.conn s).live = false then throw .useAfterFree
  else return m.conn s

def assign (s : Side) (f : TcpConn κ → TcpConn κ) : Proc κ Unit := do
  let _ ← deref s
  modify fun m => m.upd s f

def logIo (io : Io) : Proc κ Unit :=
  modify fun m => m.log io

def addEventRead (s : Side) : Proc κ Unit :=
  assign s fun c => { c with re := true }

def delEventRead (s : Side) : Proc κ Unit :=
  assign s fun c => { c with re := false }

def addEventWrite (s : Side) : Proc κ Unit :=
  assign s fun c => { c with we := true }

def delEventWrite (s : Side) : Proc κ Unit :=
  assign s fun c => { c with we := false }

def addEventTime (s : Side) : Proc κ Unit :=
  assign s fun c => { c with timer := c.timer.add }

def delEventTime (s : Side) : Proc κ Unit :=
  assign s fun c => { c with timer := c.timer.del }

def setErr (s : Side) (err : TcpError) : Proc κ Unit :=
  assign s fun c => { c with err := err }

end

end Xsocks
