import Xsocks.Tcp.Impl.Pipe

/-!
This module contains the rest of `module_tcp.c` and the callbacks of `local.c`, `server.c` and
`redir.c`.
-/

namespace Xsocks

variable {κ : Type}

inductive ConnType where
  | SHADOWSOCKS
  | RAW
  | SOCKS5
  deriving DecidableEq

/-- The fields that `tcpShadowsocksConnNew`, `tcpRawConnNew` and `tcpSocks5ConnNew` set up. -/
def Proto.new (type : ConnType) (inp : Inputs κ) : Proto κ :=
  match type with
  | .SHADOWSOCKS =>
    .shadowsocks {
      state := .INIT
      tmpBuf := []
      tmpBufOff := 0
      addrbufDest := []
      eCtx := inp.ctx.1
      dCtx := inp.ctx.2
    }
  | .RAW => .raw
  | .SOCKS5 => .socks5 { flags := .SERVER, state := .INIT, addrbufDest := .pointer inp.tail }

/--
A connection after `tcpInit`. It has been accepted and is connected, or it is connecting and waits
for its write event.
-/
def TcpConn.new (proto : Proto κ) (connected : Bool) (timeout : Int) : TcpConn κ where
  proto := proto
  live := true
  connected := connected
  piped := false
  timer := .init timeout
  re := false
  we := !connected
  rbuf := fun _ => 0
  rbufLen := NET_IOBUF_LEN
  rbufOff := 0
  wbuf := none
  wbufLen := 0
  err := .none
  pipe := none

def tcpSetTimeout (s : Side) (timeout : Int) : Proc κ Unit :=
  assign s fun c => { c with timer := c.timer.set timeout }

def tcpRemoteNew (E : Env κ) (type : ConnType) (host : CString) (port : Nat) : Proc κ Bool := do
  logIo (.connect host port)
  let _ ← deref .client
  let m ← get
  if m.inp.nonBlockConnect = false then return false
  else
    modify fun m => m.addRemote (.new (.new type m.inp) false E.timeout)
    tcpSetTimeout .client (-1)
    delEventRead .client
    return true

/-- `acl_match_host`, whose address sets exist only after `init_acl`. -/
def aclMatchHost (E : Env κ) (host : CString) : Proc κ Int :=
  if E.acl then return E.aclMatchHost host else throw .uninitialised

def isBypass (E : Env κ) (ip : CString) : Proc κ Bool := do
  let ipMatch ← aclMatchHost E ip
  match E.getAclMode with
  | .BLACK_LIST => return 0 < ipMatch
  | .WHITE_LIST => return ¬ipMatch < 0

def parseDest (E : Env κ) (addrbufDest : List Byte) : Proc κ Socks5Addr :=
  match
    socks5AddrParse E.inet (.ofList 0 addrbufDest) addrbufDest.length HOSTNAME_MAX_LEN
  with
  | some addr => return addr
  | none => throw .uninitialised

namespace Local

def bypass (E : Env κ) (atyp : Socks5Atyp) (host : CString) : Proc κ Bool := do
  if E.acl = false then return false
  else
    let hostMatch ← if atyp = .domain then aclMatchHost E host else pure 0
    if 0 < hostMatch then return true
    else if hostMatch < 0 then return false
    else if atyp ≠ .domain then isBypass E host
    else
      match E.anetResolve host with
      | some ip => isBypass E ip
      | none => return false

def newRemote (E : Env κ) (addrbufDest : Sds) : Proc κ Unit := do
  match addrbufDest with
  | .pointer _ => throw .nullDeref
  | .created addrbufDest =>
    let addr ← parseDest E addrbufDest
    let host := CString.ofBuf addr.host
    let bypass ← bypass E addr.atyp host
    if bypass then
      let ok ← tcpRemoteNew E .RAW host addr.port
      if ok = false then tcpConnectionFree
    else
      let ok ← tcpRemoteNew E .SHADOWSOCKS E.remoteAddr E.remotePort
      if ok then tcpShadowsocksConnInit E .remote host addr.port else tcpConnectionFree

def tcpClientOnRead (E : Env κ) : Proc κ Unit := do
  let c ← deref .client
  let connClient ← derefSocks5 .client
  if connClient.state ≠ .STREAM then
    let nread ← connRead E .client 0 c.rbufLen
    if 0 < nread then
      let c ← deref .client
      let _ ← connWrite E .client (c.rbuf.read 0 nread.toNat) nread
  else
    let m ← get
    if m.remote = false then newRemote E connClient.addrbufDest
    else
      let _ ← tcpPipe E .client .remote

end Local

namespace Redir

def tcpClientOnRead (E : Env κ) : Proc κ Unit := do
  let _ ← deref .client
  let _ ← deref .remote
  let _ ← tcpPipe E .client .remote

def onAccept (E : Env κ) : Proc κ Unit := do
  let m ← get
  match m.inp.dest with
  | none => tcpConnectionFree
  | some (host, port) =>
    let bypass ← isBypass E host
    if bypass then
      let ok ← tcpRemoteNew E .RAW host port
      if ok = false then tcpConnectionFree
    else
      let ok ← tcpRemoteNew E .SHADOWSOCKS E.remoteAddr E.remotePort
      if ok then tcpShadowsocksConnInit E .remote host port else tcpConnectionFree

end Redir

namespace Server

/-- The outbound block list is consulted with an address, never with a name. -/
def blocked (E : Env κ) (atyp : Socks5Atyp) (host : CString) : Bool :=
  if E.acl then
    if atyp ≠ .domain then E.outboundBlockMatchHost host
    else
      match E.anetResolve host with
      | some ip => E.outboundBlockMatchHost ip
      | none => false
  else false

def newRemote (E : Env κ) (nread : Int) : Proc κ Unit := do
  let connClient ← derefShadowsocks .client
  let addr ← parseDest E connClient.addrbufDest
  let host := CString.ofBuf addr.host
  if blocked E addr.atyp host then tcpConnectionFree
  else
    let ok ← tcpRemoteNew E .RAW host addr.port
    if ok = false then tcpConnectionFree
    else
      -- Rewind rbuffer
      let rbufOff := connClient.addrbufDest.length
      let rbufLen := nread - rbufOff
      assign .client fun c =>
        if 0 < rbufLen then
          { c with
              rbuf := c.rbuf.write 0 (c.rbuf.read rbufOff rbufLen.toNat)
              rbufOff := c.rbufOff + rbufLen.toNat }
        else c

def tcpClientOnRead (E : Env κ) : Proc κ Unit := do
  let c ← deref .client
  let m ← get
  if m.remote = false then
    let nread ← connRead E .client 0 c.rbufLen
    if 0 < nread then newRemote E nread
  else
    let _ ← tcpPipe E .client .remote

/-- Writes what the handshake left in the buffer; `false` if the connection was given up. -/
def writeLeft (E : Env κ) : Proc κ Bool := do
  let c ← deref .client
  if c.rbufOff = 0 then return true
  else
    let nwrite ← connWrite E .remote (c.rbuf.read 0 c.rbufOff) c.rbufOff
    if nwrite = ERR then return false
    else if nwrite < c.rbufOff then
      tcpConnectionFree
      return false
    else
      assign .client fun c => { c with rbufOff := 0 }
      return true

end Server

def tcpClientOnRead (E : Env κ) : Proc κ Unit :=
  match E.app with
  | .xsLocal => Local.tcpClientOnRead E
  | .xsServer => Server.tcpClientOnRead E
  | .xsRedir => Redir.tcpClientOnRead E

def tcpRemoteOnRead (E : Env κ) : Proc κ Unit := do
  let _ ← deref .remote
  let _ ← deref .client
  let _ ← tcpPipe E .remote .client

def preparePipe : Proc κ Unit := do
  addEventRead .remote
  addEventRead .client

def tcpRemoteOnConnect (E : Env κ) (status : Int) : Proc κ Unit := do
  let _ ← deref .remote
  let _ ← deref .client
  if status = ERR then return
  else
    match E.app with
    | .xsServer =>
      let ok ← Server.writeLeft E
      if ok then preparePipe
    | _ => preparePipe

/-- `tcpClientNew` for a connection that has been accepted, and the rest of `tcpServerOnAccept`. -/
def tcpServerOnAccept (E : Env κ) : Proc κ Unit := do
  let type :=
    match E.app with
    | .xsLocal => ConnType.SOCKS5
    | .xsServer => ConnType.SHADOWSOCKS
    | .xsRedir => ConnType.RAW
  modify fun m => m.addClient (.new (.new type m.inp) true E.timeout)
  addEventRead .client
  match E.app with
  | .xsRedir => Redir.onAccept E
  | _ => return

end Xsocks
