import Xsocks.Core.Impl.Resolve
import Xsocks.Lib.Ledger

/-!
This module contains `netTcpNonBlockConnect` and `_netUdpServer` of `core/net.c`, over a kernel that
answers their system calls.
-/

namespace Xsocks

inductive SockOpt where
  | SO_REUSEADDR
  | IPV6_V6ONLY
  deriving DecidableEq

inductive Syscall where
  | socket (domain type protocol : Nat)
  | setsockopt (fd : Int) (optname : SockOpt)
  | getfl (fd : Int)
  | setfl (fd : Int) (flags : Nat)
  | connect (fd : Int) (addr : List Byte)
  | bind (fd : Int) (addr : List Byte)
  | close (fd : Int)
  deriving DecidableEq

/-- The result of a system call, where an error is the return value -1. -/
abbrev Outcome := Except Errno Nat

abbrev Calls := List (Syscall × Outcome)

/-- What a system call does to the table of descriptors. `close` gives the descriptor up in any case. -/
def fdOp : Syscall × Outcome → Option (Ledger.Op Int)
  | (.socket .., .ok s) => some (.acquire s)
  | (.close s, _) => some (.release s)
  | _ => none

def Calls.ops (calls : Calls) : List (Ledger.Op Int) :=
  calls.filterMap fdOp

/-- A kernel that decides on every call from all that was called before. -/
structure Kernel where
  outcome : Calls → Syscall → Outcome
  /-- `socket` does not return a descriptor that is open. -/
  fresh : ∀ calls fds domain type protocol s, Ledger.held calls.ops = some fds →
    outcome calls (.socket domain type protocol) = .ok s → (s : Int) ∉ fds
  strerror : Errno → String

structure NetState where
  errno : Errno
  err : String
  calls : Calls

abbrev Sys := EStateM Empty NetState

def syscall (K : Kernel) (c : Syscall) : Sys Int := do
  let st ← get
  match K.outcome st.calls c with
  | .ok v =>
    modify fun st => { st with calls := st.calls ++ [(c, .ok v)] }
    return v
  | .error errno =>
    modify fun st => { st with errno := errno, calls := st.calls ++ [(c, .error errno)] }
    return -1

def anetSetError (text : Errno → String) : Sys Unit :=
  modify fun st => { st with err := text st.errno }

/-- The functions that make one call and turn its failure into an error. -/
def callOrErr (K : Kernel) (c : Syscall) (text : String) : Sys Int := do
  let rc ← syscall K c
  if rc = -1 then
    anetSetError fun errno => text ++ K.strerror errno
    return ERR
  else
    return OK

def anetSetReuseAddr (K : Kernel) (fd : Int) : Sys Int :=
  callOrErr K (.setsockopt fd .SO_REUSEADDR) "setsockopt SO_REUSEADDR: "

def netSetIpV6Only (K : Kernel) (fd : Int) : Sys Int :=
  callOrErr K (.setsockopt fd .IPV6_V6ONLY) "setsockopt: "

def anetBind (K : Kernel) (s : Int) (saddr : List Byte) : Sys Int :=
  callOrErr K (.bind s saddr) "bind: "

def O_NONBLOCK : Nat := 0o4000

def anetNonBlock (K : Kernel) (fd : Int) : Sys Int := do
  let flags ← syscall K (.getfl fd)
  if flags = -1 then
    anetSetError fun errno => "fcntl(F_GETFL): " ++ K.strerror errno
    return ERR
  else
    callOrErr K (.setfl fd (flags.toNat ||| O_NONBLOCK)) "fcntl(F_SETFL,O_NONBLOCK): "

inductive BodyExit where
  | continue
  | break
  | gotoError
  deriving DecidableEq

/-- `for (p = servinfo; p != NULL; p = p->ai_next)`, with `p` and `s` as they are behind the loop. -/
def forEntries (body : AddrInfo → Sys (BodyExit × Int)) (servinfo : List AddrInfo) (s : Int)
    : Sys (BodyExit × Option AddrInfo × Int) := do
  match servinfo with
  | [] => return (.continue, none, s)
  | p :: servinfo =>
    match ← body p with
    | (.continue, s) => forEntries body servinfo s
    | (exit, s) => return (exit, some p, s)

def closeError (K : Kernel) (s : Int) : Sys Int := do
  if s ≠ ERR then discard <| syscall K (.close s)
  return ERR

def netTcpNonBlockConnect (K : Kernel) (res : GetAddrInfo) (sa : Option SockAddrEx)
    : Sys (Int × Option SockAddrEx) := do
  match res with
  | .error gaiStrerror =>
    anetSetError fun _ => gaiStrerror
    return (ERR, sa)
  | .ok servinfo =>
    match ← forEntries body servinfo ERR with
    | (.gotoError, _, s) =>
      let s ← closeError K s
      return (s, sa)
    | (_, some p, s) => return (s, sa.map fun sa => sa.copy p.aiAddr p.aiAddrlen)
    | (_, none, s) =>
      anetSetError fun errno => "creating socket: " ++ K.strerror errno
      let s ← closeError K s
      return (s, sa)
where
  body (p : AddrInfo) : Sys (BodyExit × Int) := do
    let s ← syscall K (.socket p.aiFamily p.aiSocktype p.aiProtocol)
    if s = -1 then return (.continue, s)
    else
      let rc ← anetSetReuseAddr K s
      if rc = ERR then return (.gotoError, s)
      else
        let rc ← anetNonBlock K s
        if rc = ERR then return (.gotoError, s)
        else
          let rc ← syscall K (.connect s (p.aiAddr.read 0 p.aiAddrlen))
          if rc = -1 then
            let st ← get
            if st.errno = .EINPROGRESS then return (.break, s)
            else
              discard <| syscall K (.close s)
              return (.continue, ERR)
          else return (.break, s)

def Errno.toNat : Errno → Nat
  | .EAGAIN => 11
  | .EISCONN => 106
  | .EALREADY => 114
  | .EINPROGRESS => 115
  | .other code => code

/-- `_netUdpServer`, where `break` stands for the `goto end` of its loop. -/
def netUdpServerAf (K : Kernel) (res : GetAddrInfo) (af : Nat) : Sys Int := do
  match res with
  | .error gaiStrerror =>
    anetSetError fun _ => gaiStrerror
    return ERR
  | .ok servinfo =>
    match ← forEntries body servinfo ERR with
    | (.gotoError, _, s) => closeError K s
    | (_, some _, s) => return s
    | (_, none, s) =>
      anetSetError fun errno => "unable to bind socket, errno: " ++ toString errno.toNat
      closeError K s
where
  body (p : AddrInfo) : Sys (BodyExit × Int) := do
    let s ← syscall K (.socket p.aiFamily p.aiSocktype p.aiProtocol)
    if s = -1 then return (.continue, s)
    else
      let rc ← v6Only s
      if rc = ERR then return (.gotoError, s)
      else
        let rc ← anetSetReuseAddr K s
        if rc = ERR then return (.gotoError, s)
        else
          let rc ← anetBind K s (p.aiAddr.read 0 p.aiAddrlen)
          if rc = ERR then return (.gotoError, s)
          else return (.break, s)
  /-- The operands of `&&`: other sockets are left as they are. -/
  v6Only (s : Int) : Sys Int :=
    if af = AF_INET6 then netSetIpV6Only K s else return OK

def netUdpServer (K : Kernel) (res : GetAddrInfo) : Sys Int :=
  netUdpServerAf K res AF_INET

def netUdp6Server (K : Kernel) (res : GetAddrInfo) : Sys Int :=
  netUdpServerAf K res AF_INET6

/--
`tcpConnect` up to the connection it returns, which holds the descriptor and the address. `tcpConnNew`
tells whether there was memory for it.
-/
def tcpConnect (K : Kernel) (res : GetAddrInfo) (sa : SockAddrEx) (tcpConnNew : Bool)
    : Sys (Option (Int × SockAddrEx)) := do
  let (fd, sa) ← netTcpNonBlockConnect K res (some sa)
  if fd = ERR then return none
  else if tcpConnNew = false then
    discard <| syscall K (.close fd)
    anetSetError fun _ => "TCP conn is NULL, please check the memory"
    return none
  else return sa.map fun sa => (fd, sa)

end Xsocks
