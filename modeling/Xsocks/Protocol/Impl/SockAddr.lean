import Xsocks.Protocol.Impl.Socks5

/-!
This module contains the socket addresses of `core/net.c` and the functions that make a text of them.
-/

namespace Xsocks

structure SockAddr where
  family : Family
  addr : Bytes family.size
  /-- `sin_port` or `sin6_port`, in network order. -/
  port : Bytes 2

/-- The text of an address in an array of `ip_len` bytes, `none` for `NET_ERR`. -/
def netIpPresentByIpAddr (I : Inet) (ipLen : Nat) (f : Family) (addr : Bytes f.size) : Option CString :=
  I.inetNtop f addr ipLen

def netIpPresentBySockAddr (I : Inet) (ipLen : Nat) (sae : SockAddr) : Option (CString × Nat) :=
  match netIpPresentByIpAddr I ipLen sae.family sae.addr with
  | none => none
  | some ip => some (ip, ntohs (.ofList 0 sae.port.val) 0)

end Xsocks
