import Xsocks.Tcp.Impl.Io

/-!
This module contains the read and write handlers of the connection types: `tcp_shadowsocks.c`,
`tcp_socks5.c` and the dispatch of `TCP_READ` and `TCP_WRITE`.
-/

namespace Xsocks

inductive App where
  | xsLocal
  | xsServer
  | xsRedir
  deriving DecidableEq

inductive AclMode where
  | BLACK_LIST
  | WHITE_LIST
  deriving DecidableEq

/-- The program, its configuration and the libraries it is linked with. -/
structure Env (κ : Type) where
  app : App
  crypto : Crypto κ
  inet : Inet
  timeout : Int
  acl : Bool
  aclMatchHost : CString → Int
  getAclMode : AclMode
  outboundBlockMatchHost : CString → Bool
  anetResolve : CString → Option CString
  remoteAddr : CString
  remotePort : Nat

/--
The configuration that `configInit` sets up, without access control and with names that do not
resolve.
-/
def Env.default {κ : Type} (app : App) (crypto : Crypto κ) (inet : Inet) : Env κ where
  app := app
  crypto := crypto
  inet := inet
  timeout := 60
  acl := false
  aclMatchHost := fun _ => 0
  getAclMode := .BLACK_LIST
  outboundBlockMatchHost := fun _ => false
  anetResolve := fun _ => none
  -- "127.0.0.1"
  remoteAddr := .ofBuf [49, 50, 55, 46, 48, 46, 48, 46, 49]
  remotePort := 8388

variable {κ : Type}

def derefShadowsocks (s : Side) : Proc κ (TcpShadowsocks κ) := do
  let c ← deref s
  match c.proto with
  | .shadowsocks c => return c
  | _ => throw .badCast

def TcpConn.updShadowsocks (c : TcpConn κ) (f : TcpShadowsocks κ → TcpShadowsocks κ) : TcpConn κ :=
  match c.proto with
  | .shadowsocks ss => { c with proto := .shadowsocks (f ss) }
  | _ => c

def assignShadowsocks (s : Side) (f : TcpShadowsocks κ → TcpShadowsocks κ) : Proc κ Unit :=
  assign s fun c => c.updShadowsocks f

def derefSocks5 (s : Side) : Proc κ TcpSocks5 := do
  let c ← deref s
  match c.proto with
  | .socks5 c => return c
  | _ => throw .badCast

def TcpConn.updSocks5 (c : TcpConn κ) (f : TcpSocks5 → TcpSocks5) : TcpConn κ :=
  match c.proto with
  | .socks5 s5 => { c with proto := .socks5 (f s5) }
  | _ => c

def assignSocks5 (s : Side) (f : TcpSocks5 → TcpSocks5) : Proc κ Unit :=
  assign s fun c => c.updSocks5 f

def tcpShadowsocksConnInit (E : Env κ) (s : Side) (host : CString) (port : Nat) : Proc κ Unit := do
  let m ← get
  match socks5AddrInit E.inet m.inp.uninit host port with
  | some addr => assignShadowsocks s fun c => { c with addrbufDest := addr }
  | none => throw .uninitialised

def tcpShadowsocksConnRead (E : Env κ) (s : Side) (off : Nat) (bufLen : Int) : Proc κ Int := do
  assignShadowsocks s fun c => if c.state = .HANDSHAKE then { c with state := .STREAM } else c
  let nread ← tcpRead s off bufLen
  if nread ≤ 0 then return nread
  else
    let conn ← deref s
    let c ← derefShadowsocks s
    decrypted (E.crypto.decrypt c.dCtx (conn.rbuf.read off nread.toNat))
where
  decrypted (d : Decrypted κ) : Proc κ Int := do
    if bufLen < d.demand then throw .brealloc
    else
      assignShadowsocks s fun c => { c with dCtx := d.dCtx }
      match d.res with
      | .CRYPTO_OK plaintext =>
        assign s fun c => { c with rbuf := c.rbuf.write off plaintext }
        parsed plaintext.length
      | _ =>
        setErr s .ERROR_SHADOWSOCKS_DECRYPT
        failed s
  parsed (nread : Int) : Proc κ Int := do
    let conn ← deref s
    let c ← derefShadowsocks s
    if c.state = .INIT then
      match socks5AddrParse E.inet (conn.rbuf.shift off) nread HOSTNAME_MAX_LEN with
      | none =>
        setErr s .ERROR_SHADOWSOCKS_SOCKS5
        failed s
      | some addr =>
        tcpShadowsocksConnInit E s (.ofBuf addr.host) addr.port
        assignShadowsocks s fun c => { c with state := .HANDSHAKE }
        return nread
    else
      return nread

def tcpShadowsocksConnWrite (E : Env κ) (s : Side) (buf : List Byte) (bufLen : Int)
    : Proc κ Int := do
  let c ← derefShadowsocks s
  match c.state with
  | .INIT =>
    match E.crypto.encrypt c.eCtx c.addrbufDest with
    | none =>
      setErr s .ERROR_SHADOWSOCKS_ENCRYPT
      failed s
    | some (ciphertext, eCtx) =>
      assignShadowsocks s fun c => { c with addrbufDest := ciphertext, eCtx := eCtx }
      let nwrite ← tcpWrite s ciphertext ciphertext.length
      if nwrite < 0 then return nwrite
      else if nwrite ≠ ciphertext.length then failed s
      else
        assignShadowsocks s fun c => { c with state := .HANDSHAKE }
        stream
  | .HANDSHAKE =>
    assignShadowsocks s fun c => { c with state := .STREAM }
    stream
  | .STREAM => stream
where
  stream : Proc κ Int := do
    let c ← derefShadowsocks s
    if c.tmpBuf.length = 0 then
      if bufLen < 0 then throw .memcpyLength
      else
        match E.crypto.encrypt c.eCtx (buf.take bufLen.toNat) with
        | none =>
          setErr s .ERROR_SHADOWSOCKS_ENCRYPT
          failed s
        | some (ciphertext, eCtx) =>
          assignShadowsocks s fun c => { c with tmpBuf := ciphertext, eCtx := eCtx }
          flush
    else flush
  flush : Proc κ Int := do
    let c ← derefShadowsocks s
    let wbufLen : Int := c.tmpBuf.length - c.tmpBufOff
    let nwrite ← tcpWrite s (c.tmpBuf.drop c.tmpBufOff) wbufLen
    if nwrite = wbufLen then
      assignShadowsocks s fun c => { c with tmpBuf := [], tmpBufOff := 0 }
      return nwrite
    else if 0 < nwrite ∧ nwrite < wbufLen then
      assignShadowsocks s fun c => { c with tmpBufOff := c.tmpBufOff + nwrite.toNat }
      return nwrite
    else
      return nwrite

def tcpSocks5ConnInit (E : Env κ) (s : Side) (host : CString) (port : Nat) : Proc κ Unit := do
  let m ← get
  let addr :=
    match socks5AddrInit E.inet m.inp.uninit host port with
    | some addr => Sds.created addr
    | none => Sds.pointer 0
  assignSocks5 s fun c => { c with addrbufDest := addr }

def SVERSION : Byte := 0x05
def METHOD_NOAUTH : Byte := 0x00
def SOCKS5_CMD_CONNECT : Byte := 0x01
def SOCKS5_REP_SUCCEEDED : Byte := 0x00

/-- The checks on a method selection message of which `nread` bytes stand at the start of `buf`. -/
def socks5AuthReq (buf : Mem Byte) (nread : Int) : Bool :=
  let nmethods := (buf 1).toNat
  let authLen := 2 + nmethods
  if nread < authLen ∨ buf 0 ≠ SVERSION then false
  else (buf.read 2 nmethods).contains METHOD_NOAUTH

/-- The checks on a request of which `nread` bytes stand at the start of `buf`. -/
def socks5Req (I : Inet) (buf : Mem Byte) (nread : Int) : Option Socks5Addr :=
  let requestLen := 4
  if nread < requestLen ∨ buf 0 ≠ SVERSION then none
  else if buf 1 ≠ SOCKS5_CMD_CONNECT then none
  else socks5AddrParse I (buf.shift 3) (nread - requestLen + 1) HOSTNAME_MAX_LEN

def tcpSocks5ConnRead (E : Env κ) (s : Side) (off : Nat) (bufLen : Int) : Proc κ Int := do
  let c ← derefSocks5 s
  if c.flags = .CLIENT then
    setErr s .ERROR_SOCKS5_NOT_SUPPORTED
    failed s
  else
    let nread ← tcpRead s off bufLen
    if nread ≤ 0 then return nread
    else
      let conn ← deref s
      let c ← derefSocks5 s
      match c.state with
      | .INIT =>
        if socks5AuthReq (conn.rbuf.shift off) nread then return nread
        else
          setErr s .ERROR_SOCKS5_AUTH
          failed s
      | .HANDSHAKE =>
        match socks5Req E.inet (conn.rbuf.shift off) nread with
        | none =>
          setErr s .ERROR_SOCKS5_HANDSHAKE
          failed s
        | some addr =>
          tcpSocks5ConnInit E s (.ofBuf addr.host) addr.port
          return nread
      | .STREAM => return nread

def authResp : List Byte := [SVERSION, METHOD_NOAUTH]

/-- `socks5Resp` followed by the zero address and port of `sock_addr`. -/
def socks5Resp : List Byte :=
  [SVERSION, SOCKS5_REP_SUCCEEDED, 0, Socks5Atyp.ipv4.toByte, 0, 0, 0, 0, 0, 0]

def tcpSocks5ConnWrite (s : Side) (buf : List Byte) (bufLen : Int) : Proc κ Int := do
  let c ← derefSocks5 s
  if c.flags = .CLIENT then
    setErr s .ERROR_SOCKS5_NOT_SUPPORTED
    failed s
  else
    match c.state with
    | .INIT => reply authResp .HANDSHAKE
    | .HANDSHAKE => reply socks5Resp .STREAM
    | .STREAM => tcpWrite s buf bufLen
where
  -- A short write of a reply takes the `error:` label without an error code.
  reply (resp : List Byte) (next : Socks5State) : Proc κ Int := do
    let nwrite ← tcpWrite s resp resp.length
    if nwrite < 0 then return nwrite
    else if nwrite ≠ resp.length then failed s
    else
      assignSocks5 s fun c => { c with state := next }
      return nwrite

def connRead (E : Env κ) (s : Side) (off : Nat) (bufLen : Int) : Proc κ Int := do
  let c ← deref s
  match c.proto with
  | .raw => tcpRead s off bufLen
  | .shadowsocks _ => tcpShadowsocksConnRead E s off bufLen
  | .socks5 _ => tcpSocks5ConnRead E s off bufLen

def connWrite (E : Env κ) (s : Side) (buf : List Byte) (bufLen : Int) : Proc κ Int := do
  let c ← deref s
  logIo (.write s bufLen)
  match c.proto with
  | .raw => tcpWrite s buf bufLen
  | .shadowsocks _ => tcpShadowsocksConnWrite E s buf bufLen
  | .socks5 _ => tcpSocks5ConnWrite s buf bufLen

end Xsocks
