import Xsocks.Core.Net

/-!
This module contains the SOCKS5 address codec of `protocol/socks5.c`.
-/

namespace Xsocks

inductive Family where
  | inet
  | inet6
  deriving DecidableEq

def Family.size : Family → Nat
  | .inet => 4
  | .inet6 => 16

structure Inet where
  pton (f : Family) (text : CString) : Option (Bytes f.size)
  ntop (f : Family) (addr : Bytes f.size) : CString

/-- Contents of memory that was not written yet, by the kind of address stored there. -/
abbrev Uninit := (f : Family) → Bytes f.size

namespace Inet

/--
`inet_pton` with its return value. A text that is no address gives 0 and leaves `dst` as it is. The
return value -1 is kept for unknown address families.
-/
def inetPton (I : Inet) (f : Family) (src : CString) (dst : Bytes f.size) : Int × Bytes f.size :=
  match I.pton f src with
  | some addr => (1, addr)
  | none => (0, dst)

def inetNtop (I : Inet) (f : Family) (src : Bytes f.size) (size : Nat) : Option CString :=
  if (I.ntop f src).bytes.length < size then some (I.ntop f src) else none

end Inet

inductive Socks5Atyp where
  | ipv4
  | domain
  | ipv6
  deriving DecidableEq

namespace Socks5Atyp

def toByte : Socks5Atyp → Byte
  | ipv4 => 0x01
  | domain => 0x03
  | ipv6 => 0x04

def ofByte? (b : Byte) : Option Socks5Atyp :=
  if b = 0x01 then some ipv4
  else if b = 0x03 then some domain
  else if b = 0x04 then some ipv6
  else none

end Socks5Atyp

def SOCKS5_ADDR_MAX_LEN : Nat := 259

def socks5HostParse (host : CString) : Socks5Atyp :=
  if isIPv6Addr host then .ipv6
  else if host.bytes.all fun c => (48 ≤ c && c ≤ 57) || c == 46 then .ipv4
  else .domain

def htons (port : Nat) : List Byte :=
  [UInt8.ofNat (port / 256), UInt8.ofNat port]

def ntohs (buf : Mem Byte) (off : Nat) : Nat :=
  (buf off).toNat * 256 + (buf (off + 1)).toNat

/--
The encoding of `host` and `port`, `none` for a `NULL` result. `uninit` is what the stack holds where
the C function puts `addr_v4` and `addr_v6`.
-/
def socks5AddrInit (I : Inet) (uninit : Uninit) (host : CString) (port : Nat)
    : Option (List Byte) :=
  match socks5HostParse host with
  | .ipv4 => ip .ipv4 .inet
  | .ipv6 => ip .ipv6 .inet6
  | .domain =>
    let addrLen := host.bytes.length
    some (Socks5Atyp.domain.toByte :: UInt8.ofNat addrLen :: (host.bytes ++ htons port))
where
  ip (atyp : Socks5Atyp) (f : Family) : Option (List Byte) :=
    let (rc, addr) := I.inetPton f host (uninit f)
    if rc = -1 then none else some (atyp.toByte :: (addr.val ++ htons port))

/--
Copies the encoding of `host` and `port` into the array `addr_buf` and stores its length in `buf_len`.
-/
def socks5AddrCreate (I : Inet) (uninit : Uninit) (host : CString) (port : Nat) (addrBuf : Mem Byte)
    (bufLen : Int)
    : Int × Mem Byte × Int :=
  match socks5AddrInit I uninit host port with
  | none => (ERR, addrBuf, bufLen)
  | some addr => (OK, addrBuf.write 0 addr, addr.length)

/-- What `socks5AddrParse` stores through its out parameters, with its return value. -/
structure Socks5Addr where
  consumed : Nat
  atyp : Socks5Atyp
  /-- The bytes of the `host` array in front of the NUL that ends it. -/
  host : List Byte
  port : Nat
  deriving DecidableEq

/--
Parses the address at the start of `addr_buf`. `none` is the return value `SOCKS5_ERR`, after which
no caller looks at the out parameters. `host_len` is the size of the `host` array.
-/
def socks5AddrParse (I : Inet) (addrBuf : Mem Byte) (bufLen : Int) (hostLen : Nat)
    : Option Socks5Addr :=
  match Socks5Atyp.ofByte? (addrBuf 0) with
  | some .ipv4 => ip .ipv4 .inet
  | some .ipv6 => ip .ipv6 .inet6
  | some .domain =>
    -- The length byte is fetched before anything is known about `buf_len`.
    let addrLen := (addrBuf 1).toNat
    if bufLen - 1 < 1 + addrLen + 2 then none
    else
      some {
        consumed := 1 + (1 + addrLen + 2)
        atyp := .domain
        host := addrBuf.read 2 addrLen
        port := ntohs addrBuf (2 + addrLen)
      }
  | none => none
where
  ip (atyp : Socks5Atyp) (f : Family) : Option Socks5Addr :=
    if bufLen - 1 < f.size + 2 then none
    else
      match I.inetNtop f (bytesAt addrBuf 1 f.size) hostLen with
      | none => none
      | some host =>
        some {
          consumed := 1 + (f.size + 2)
          atyp := atyp
          host := host.bytes
          port := ntohs addrBuf (1 + f.size)
        }

/-- The variables that the out parameters of `socks5AddrParse` point to. -/
structure Socks5Out where
  atyp : Nat
  host : Mem Byte
  hostLen : Nat
  port : Nat

/--
`socks5AddrParse` as it works on the variables of its caller, with all of the out parameters there. Some
of them are assigned before it is clear whether the address is complete.
-/
def socks5AddrParseInto (I : Inet) (addrBuf : Mem Byte) (bufLen : Int) (out : Socks5Out)
    : Int × Socks5Out :=
  let out := { out with atyp := (addrBuf 0).toNat }
  match Socks5Atyp.ofByte? (addrBuf 0) with
  | some .ipv4 => ip .inet out
  | some .ipv6 => ip .inet6 out
  | some .domain =>
    let addrLen := (addrBuf 1).toNat
    if bufLen - 1 < 1 + addrLen + 2 then (ERR, out)
    else
      let host := (out.host.write 0 (addrBuf.read 2 addrLen)).write addrLen [0]
      (1 + (1 + addrLen + 2),
        { out with host := host, hostLen := addrLen, port := ntohs addrBuf (2 + addrLen) })
  | none => (ERR, out)
where
  ip (f : Family) (out : Socks5Out) : Int × Socks5Out :=
    let addrLen := f.size
    if bufLen - 1 < addrLen + 2 then (ERR, out)
    else
      let out := { out with port := ntohs addrBuf (1 + addrLen) }
      match I.inetNtop f (bytesAt addrBuf 1 addrLen) out.hostLen with
      | none => (ERR, out)
      | some host =>
        (1 + (addrLen + 2),
          { out with host := out.host.write 0 (host.bytes ++ [0]), hostLen := addrLen })

end Xsocks
