import Xsocks.Udp.Impl.Basic

/-!
This module contains `protocol/udp.c`, `protocol/udp_shadowsocks.c` and the callbacks of `module_udp.c`
that they can fire. A result `none` is `UDP_ERR`.
-/

namespace Xsocks.Udp

variable {κ : Type}

/-- The events are taken out of the loop and freed, then the connection itself. -/
def UdpConn.close (c : UdpConn) : UdpConn :=
  { c with live := false, timer := c.timer.clear }

def udpSetTimeout (s : Side) (timeout : Int) : Proc Unit :=
  assign s fun c => { c with timer := c.timer.set timeout }

def udpRemoteFree : Proc Unit := do
  let m ← get
  if m.client.remote then
    logIo .remoteFree
    assign .remote UdpConn.close

def udpClientFree : Proc Unit := do
  logIo .clientFree
  modify fun m => m.updClient fun c => { c with live := false }

def udpConnectionFree : Proc Unit := do
  let c ← derefClient
  if c.remote then modify fun m => { m with remoteCount := m.remoteCount - 1 }
  udpRemoteFree
  udpClientFree

def udpRemoteOnClose : Proc Unit := do
  let _ ← deref .remote
  udpConnectionFree

def udpRemoteOnError : Proc Unit := do
  let _ ← deref .remote

def udpRemoteOnTimeout : Proc Unit := do
  let _ ← deref .remote

def fireClose (s : Side) : Proc Unit := do
  let _ ← deref s
  match s with
  | .server => return
  | .remote => udpRemoteOnClose

def fireError (s : Side) : Proc Unit := do
  let _ ← deref s
  match s with
  | .server => return
  | .remote => udpRemoteOnError

def fireTimeout (s : Side) : Proc Unit := do
  let _ ← deref s
  match s with
  | .server => return
  | .remote => udpRemoteOnTimeout

def failed {α : Type} (s : Side) : Proc (Option α) := do
  fireError s
  fireClose s
  return none

/-- What does not fit into the buffer is discarded by `recvfrom`. -/
def netUdpRead (buflen : Nat) : RecvRes → Option (SockAddr × List Byte)
  | .error => none
  | .datagram sa data => some (sa, data.take buflen)

def udpRead (s : Side) (bufLen : Nat) : Proc (Option (List Byte)) := do
  assign s fun c => { c with timer := c.timer.del }
  let m ← get
  match netUdpRead bufLen m.inp.recv with
  | none => failed s
  | some (sa, data) =>
    logIo (.recv s sa data)
    modify fun m => m.sender s sa
    if data = [] then
      fireClose s
      return none
    else
      assign s fun c => { c with timer := c.timer.add }
      return some data

def udpWrite (s : Side) (buf : List Byte) (sa : SockAddr) : Proc (Option Nat) := do
  let _ ← deref s
  let m ← get
  if m.inp.sendto = false then failed s
  else
    logIo (.send s sa buf)
    return some buf.length

def udpShadowsocksConnInit (E : Env κ) (s : Side) (host : CString) (port : Nat) : Proc Unit := do
  let m ← get
  match socks5AddrInit E.inet m.inp.uninit host port with
  | some addr => assign s fun c => { c with proto := .shadowsocks addr }
  | none => throw .uninitialised

def udpShadowsocksConnRead (E : Env κ) (s : Side) (bufLen : Nat) : Proc (Option (List Byte)) := do
  let nread ← udpRead s bufLen
  match nread with
  | none => return none
  | some data =>
    match E.crypto.decryptAll data with
    | none => failed s
    | some buf =>
      match socks5AddrParse E.inet (.ofList 0 buf) buf.length HOSTNAME_MAX_LEN with
      | none => failed s
      | some addr =>
        udpShadowsocksConnInit E s (.ofBuf addr.host) addr.port
        return some (buf.drop addr.consumed)

def udpShadowsocksConnWrite (E : Env κ) (s : Side) (addrbufDest buf : List Byte) (sa : SockAddr)
    : Proc (Option Nat) := do
  let m ← get
  match E.crypto.encryptAll m.inp.nonce (addrbufDest ++ buf) with
  | none => failed s
  | some tmpBuf => udpWrite s tmpBuf sa

def connRead (E : Env κ) (s : Side) : Proc (Option (List Byte)) := do
  let c ← deref s
  match c.proto with
  | .raw => udpRead s NET_IOBUF_LEN
  | .shadowsocks _ => udpShadowsocksConnRead E s NET_IOBUF_LEN

def connWrite (E : Env κ) (s : Side) (buf : List Byte) (sa : SockAddr) : Proc (Option Nat) := do
  let c ← deref s
  match c.proto with
  | .raw => udpWrite s buf sa
  | .shadowsocks addrbufDest => udpShadowsocksConnWrite E s addrbufDest buf sa

end Xsocks.Udp
