import Xsocks.Tcp.Impl.Basic

/-!
This module contains `tcpClose`, `tcpRead` and `tcpWrite` of `protocol/tcp.c` and the callbacks of
`module_tcp.c` that they can fire.
-/

namespace Xsocks

variable {κ : Type}

/-- The events are taken out of the loop and freed, then the connection itself. -/
def TcpConn.close (c : TcpConn κ) : TcpConn κ :=
  { c with re := false, we := false, timer := c.timer.clear, live := false }

def tcpClose (s : Side) : Proc κ Unit :=
  assign s TcpConn.close

/-- `CONN_CLOSE`: `tcpClose`, `tcpShadowsocksConnFree` or `tcpSocks5ConnFree`. -/
def connClose (s : Side) : Proc κ Unit := do
  let c ← deref s
  match c.proto with
  | .raw => tcpClose s
  | .shadowsocks _ => tcpClose s
  | .socks5 c =>
    logIo (.sdsfree c.addrbufDest)
    tcpClose s

def tcpRemoteFree : Proc κ Unit := do
  let m ← get
  if m.remote then connClose .remote

def tcpConnectionFree : Proc κ Unit := do
  let _ ← deref .client
  modify fun m => m.discount
  logIo .connectionFree
  tcpRemoteFree
  connClose .client

def tcpClientOnClose : Proc κ Unit := do
  let _ ← deref .client
  tcpConnectionFree

/-- `remote->client` is used to get the address text of the client. -/
def tcpRemoteOnClose : Proc κ Unit := do
  let _ ← deref .client
  tcpConnectionFree

/-- The text logged is the one of the remote if the client itself has no error. -/
def tcpClientOnError : Proc κ Unit := do
  let c ← deref .client
  if c.err = .none then
    let _ ← deref .remote

def tcpRemoteOnError : Proc κ Unit := do
  let c ← deref .client
  if c.err = .none then
    let _ ← deref .remote

def tcpClientOnTimeout : Proc κ Unit := do
  let _ ← deref .client

def tcpRemoteOnTimeout : Proc κ Unit := do
  let _ ← deref .client
  let _ ← deref .remote

def fireClose (s : Side) : Proc κ Unit := do
  let _ ← deref s
  logIo (.onClose s)
  match s with
  | .client => tcpClientOnClose
  | .remote => tcpRemoteOnClose

def fireError (s : Side) : Proc κ Unit := do
  let _ ← deref s
  match s with
  | .client => tcpClientOnError
  | .remote => tcpRemoteOnError

def fireTimeout (s : Side) : Proc κ Unit := do
  let _ ← deref s
  match s with
  | .client => tcpClientOnTimeout
  | .remote => tcpRemoteOnTimeout

/-- The common end of failing handlers: both callbacks, then `TCP_ERR`. -/
def failed (s : Side) : Proc κ Int := do
  fireError s
  fireClose s
  return ERR

def recv (s : Side) (off : Nat) (bufLen : Int) : Proc κ NetRead := do
  let m ← get
  let res := netTcpRead bufLen (m.inp.reads.headD [])
  modify fun m => m.popReads
  assign s fun c => { c with rbuf := c.rbuf.write off res.data }
  logIo (.recv s res.data)
  return res

def send (s : Side) (buf : List Byte) (bufLen : Int) : Proc κ Int := do
  let _ ← deref s
  let m ← get
  let nwrite := netTcpWrite bufLen (m.inp.writes.headD [])
  modify fun m => m.popWrites
  logIo (.send s (buf.take nwrite.toNat))
  return nwrite

def tcpRead (s : Side) (off : Nat) (bufLen : Int) : Proc κ Int := do
  delEventTime s
  let res ← recv s off bufLen
  if res.nread = ERR then
    setErr s .TCP_ERROR_READ
    failed s
  else if res.nread = 0 ∧ res.closed = true then
    setErr s .TCP_ERROR_CLOSED
    fireClose s
    return ERR
  else
    addEventTime s
    return res.nread

def tcpWrite (s : Side) (buf : List Byte) (bufLen : Int) : Proc κ Int := do
  let nwrite ← send s buf bufLen
  if nwrite = ERR then
    setErr s .TCP_ERROR_WRITE
    failed s
  else
    return nwrite

end Xsocks
