import Xsocks.Core.Basic

/-!
This module contains the results of `getaddrinfo` and the choice that `netUdpGetSockAddrEx` makes from
them.
-/

namespace Xsocks

def AF_INET : Nat := 2

def AF_INET6 : Nat := 10

def sizeofSockAddrIpV4 : Nat := 16

def sizeofSockAddrIpV6 : Nat := 28

structure AddrInfo where
  aiFamily : Nat
  aiSocktype : Nat
  aiProtocol : Nat
  aiAddrlen : Nat
  aiAddr : Mem Byte

/-- The outcome of `getaddrinfo`: the text of `gai_strerror` or the entries of `servinfo`. -/
inductive GetAddrInfo where
  | error (gaiStrerror : String)
  | ok (servinfo : List AddrInfo)

structure SockAddrEx where
  sa : Mem Byte
  saLen : Nat

namespace SockAddrEx

def copy (sa : SockAddrEx) (src : Mem Byte) (len : Nat) : SockAddrEx where
  sa := sa.sa.write 0 (src.read 0 len)
  saLen := len

def copyFamily (sa : SockAddrEx) (p : AddrInfo) : SockAddrEx :=
  if p.aiFamily = AF_INET then sa.copy p.aiAddr sizeofSockAddrIpV4
  else if p.aiFamily = AF_INET6 then sa.copy p.aiAddr sizeofSockAddrIpV6
  else sa

end SockAddrEx

/-- What a function leaves behind: its return value, the text in `err` and `*sa`. -/
structure NetSockAddr where
  rc : Int
  err : Option String
  sa : SockAddrEx

inductive PreferExit where
  /-- By `break` or at the end of the list, where `p` is `NULL`. -/
  | done (p : Option AddrInfo) (sa : SockAddrEx)
  | gotoEnd

def netUdpGetSockAddrEx (res : GetAddrInfo) (ipv6First : Bool) (sa : SockAddrEx) : NetSockAddr :=
  match res with
  | .error gaiStrerror => ⟨ERR, some gaiStrerror, sa⟩
  | .ok servinfo =>
    let preferAf := if ipv6First then AF_INET6 else AF_INET
    match preferLoop preferAf servinfo sa with
    -- Behind the `if` of the first loop stands `goto end`, with `s == NET_OK`.
    | .gotoEnd => ⟨OK, none, sa⟩
    | .done (some _) sa => ⟨OK, none, sa⟩
    | .done none sa =>
      match firstLoop servinfo sa with
      | (none, sa) => ⟨ERR, some "Failed to resolve addr", sa⟩
      | (some _, sa) => ⟨OK, none, sa⟩
where
  preferLoop (preferAf : Nat) (servinfo : List AddrInfo) (sa : SockAddrEx) : PreferExit :=
    match servinfo with
    | [] => .done none sa
    | p :: _ => if p.aiFamily = preferAf then .done (some p) (sa.copyFamily p) else .gotoEnd
  firstLoop (servinfo : List AddrInfo) (sa : SockAddrEx) : Option AddrInfo × SockAddrEx :=
    match servinfo with
    | [] => (none, sa)
    | p :: _ => (some p, sa.copyFamily p)

end Xsocks
