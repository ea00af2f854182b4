import Mathlib.Data.List.DropRight
import Xsocks.Core.Impl.Config
import Xsocks.IpSet.Impl.Set
import Xsocks.Tcp.Impl.Conn

/-!
This module contains the access control lists of `acl.c` and `rule.c`: the file that they are read from and the
decisions for hosts.
-/

namespace Xsocks

namespace Acl

open IpSet

structure Library (Pcre : Type) where
  corkIpInit : CString → Option CorkIp
  pcreCompile : CString → Option Pcre
  /-- Negative results are errors, `PCRE_ERROR_NOMATCH` among them. -/
  pcreExec : Pcre → CString → Int

/-- `rule_t`, where `pattern_re` is `NULL` if the pattern could not be compiled. -/
structure Rule (Pcre : Type) where
  pattern : CString
  patternRe : Option Pcre

structure Lists (Pcre : Type) where
  listIpv4 : IpSet
  listIpv6 : IpSet
  rules : List (Rule Pcre)

inductive ListName where
  | whiteList
  | blackList
  | outboundBlockList
  deriving DecidableEq

end Acl

structure Acl (Pcre : Type) where
  whiteList : Acl.Lists Pcre
  blackList : Acl.Lists Pcre
  outboundBlockList : Acl.Lists Pcre
  aclMode : AclMode

namespace Acl

open IpSet

variable {Pcre : Type}

abbrev AclM (Pcre : Type) := EStateM IpSet.Fault (Acl Pcre)

def list (acl : Acl Pcre) : ListName → Lists Pcre
  | .whiteList => acl.whiteList
  | .blackList => acl.blackList
  | .outboundBlockList => acl.outboundBlockList

def updList (acl : Acl Pcre) (name : ListName) (f : Lists Pcre → Lists Pcre) : Acl Pcre :=
  match name with
  | .whiteList => { acl with whiteList := f acl.whiteList }
  | .blackList => { acl with blackList := f acl.blackList }
  | .outboundBlockList => { acl with outboundBlockList := f acl.outboundBlockList }

def Lists.ipset (list : Lists Pcre) : Family → IpSet
  | .inet => list.listIpv4
  | .inet6 => list.listIpv6

def Lists.setIpset (list : Lists Pcre) (f : Family) (set : IpSet) : Lists Pcre :=
  match f with
  | .inet => { list with listIpv4 := set }
  | .inet6 => { list with listIpv6 := set }

/-- A function is called on the addresses of one family in a list. -/
def onIpset {α : Type} (name : ListName) (f : Family) (x : IpSet.SetM α) : AclM Pcre α := fun acl =>
  match x ((acl.list name).ipset f) with
  | .ok a set => .ok a (acl.updList name fun list => list.setIpset f set)
  | .error e set => .error e (acl.updList name fun list => list.setIpset f set)

/-! # Rules -/

def PCRE_ERROR_NULL : Int := -2

/-- `pcre_exec` with a pattern that may be `NULL`. -/
def Rule.exec (L : Library Pcre) (rule : Rule Pcre) (name : CString) : Int :=
  match rule.patternRe with
  | some re => L.pcreExec re name
  | none => PCRE_ERROR_NULL

def lookupRule (L : Library Pcre) (rules : List (Rule Pcre)) (name : CString) : Option (Rule Pcre) :=
  rules.find? fun rule => 0 ≤ rule.exec L name

def newRule (L : Library Pcre) (line : CString) : Rule Pcre where
  pattern := line
  patternRe := L.pcreCompile line

def addRule (name : ListName) (rule : Rule Pcre) : AclM Pcre Unit :=
  modify fun acl => acl.updList name fun list => { list with rules := list.rules ++ [rule] }

/-! # The file -/

def readLine : Nat → List Byte → List Byte × List Byte
  | 0, file => ([], file)
  | _ + 1, [] => ([], [])
  | n + 1, b :: file =>
    if b = 10 then ([b], file)
    else
      let (line, file) := readLine n file
      (b :: line, file)

def fgets (size : Nat) (file : List Byte) : Option (List Byte × List Byte) :=
  if file = [] then none else some (readLine (size - 1) file)

/-- `strlen(buf) == 255 && buf[254] != '\n'` -/
def isLong (buf : List Byte) : Bool :=
  decide ((CString.ofBuf buf).bytes.length = 255 ∧ buf[254]? ≠ some 10)

/-- The loop that discards long lines: `long_line` at its end, with the rest of the file. -/
def discard : (fuel : Nat) → (longLine : Nat) → (buf file : List Byte) → Except IpSet.Fault (Nat × List Byte)
  | 0, _, _, _ => throw .outOfFuel
  | fuel + 1, longLine, buf, file =>
    if isLong buf then
      match fgets 256 file with
      | none => return (2, file)
      | some (buf, file) => discard fuel 1 buf file
    else return (longLine, file)

def trimNewline (buf : List Byte) : List Byte :=
  if buf.getLast? = some 10 then buf.dropLast else buf

def trimComment (buf : List Byte) : List Byte :=
  buf.takeWhile (· ≠ 35)

def trimwhitespace (str : List Byte) : List Byte :=
  (str.dropWhile isspace).rdropWhile isspace

/-- The text of a line as it is in `buf` after `fgets`. -/
def lineText (buf : List Byte) : List Byte :=
  trimwhitespace (trimComment (trimNewline (CString.ofBuf buf).bytes))

def text (s : String) : List Byte :=
  s.toList.map Char.toUInt8

inductive Directive where
  | list (name : ListName)
  | mode (aclMode : AclMode)
  deriving DecidableEq

def directive? (line : List Byte) : Option Directive :=
  if line = text "[outbound_block_list]" then some (.list .outboundBlockList)
  else if line = text "[black_list]" || line = text "[bypass_list]" then some (.list .blackList)
  else if line = text "[white_list]" || line = text "[proxy_list]" then some (.list .whiteList)
  else if line = text "[reject_all]" || line = text "[bypass_all]" then some (.mode .WHITE_LIST)
  else if line = text "[accept_all]" || line = text "[proxy_all]" then some (.mode .BLACK_LIST)
  else none

/-- The part in front of the last slash, and the number behind it. -/
def parseAddrCidr (str : List Byte) : List Byte × Int :=
  match strrchr 47 str with
  | none => (str, -1)
  | some ret => (str.take ret, (atoi (str.drop (ret + 1))).toInt)

def addEntry (L : Library Pcre) (fuel : Nat) (name : ListName) (line : List Byte) : AclM Pcre Unit := do
  let (host, cidr) := parseAddrCidr line
  match L.corkIpInit (.ofBuf host) with
  | some (.v4 ip) =>
    let _ ← onIpset name .inet
      (if cidr ≥ 0 then ipsetIpv4AddNetwork fuel ip cidr.toNat else ipsetIpv4Add fuel ip)
  | some (.v6 ip) =>
    let _ ← onIpset name .inet6
      (if cidr ≥ 0 then ipsetIpv6AddNetwork fuel ip cidr.toNat else ipsetIpv6Add fuel ip)
  | none => addRule name (newRule L (.ofBuf line))

def initAcl.loop (L : Library Pcre) (fuel : Nat) : (steps : Nat) → ListName → (file : List Byte) → AclM Pcre Unit
  | 0, _, _ => throw .outOfFuel
  | steps + 1, name, file => do
    match fgets 256 file with
    | none => return ()
    | some (buf, file) =>
      match discard (file.length + 1) 0 buf file with
      | .error e => throw e
      | .ok (longLine, file) =>
        if longLine ≠ 0 then loop L fuel steps name file
        else if lineText buf = [] then loop L fuel steps name file
        else
          match directive? (lineText buf) with
          | some (.list name) => loop L fuel steps name file
          | some (.mode aclMode) =>
            modify fun acl => { acl with aclMode := aclMode }
            loop L fuel steps name file
          | none =>
            addEntry L fuel name (lineText buf)
            loop L fuel steps name file

def Lists.init : Lists Pcre where
  listIpv4 := ipsetInit
  listIpv6 := ipsetInit
  rules := []

/-- `path` is the contents of the file, `none` if it cannot be opened. -/
def initAcl (L : Library Pcre) (fuel : Nat) (path : Option (List Byte)) : AclM Pcre Int := do
  modify fun acl => { acl with whiteList := .init, blackList := .init, outboundBlockList := .init }
  match path with
  | none => return -1
  | some file =>
    initAcl.loop L fuel (file.length + 1) .blackList file
    return 0

/-! # Decisions -/

def getAclMode : AclM Pcre AclMode := do
  let acl ← get
  return acl.aclMode

def containsIp (fuel : Nat) (name : ListName) : CorkIp → AclM Pcre Bool
  | .v4 ip => onIpset name .inet (ipsetContainsIpv4 fuel ip)
  | .v6 ip => onIpset name .inet6 (ipsetContainsIpv6 fuel ip)

def aclMatchHost (L : Library Pcre) (fuel : Nat) (host : CString) : AclM Pcre Int := do
  match L.corkIpInit host with
  | none =>
    let acl ← get
    if (lookupRule L acl.blackList.rules host).isSome then return 1
    else if (lookupRule L acl.whiteList.rules host).isSome then return -1
    else return 0
  | some addr =>
    if ← containsIp fuel .blackList addr then return 1
    else if ← containsIp fuel .whiteList addr then return -1
    else return 0

def aclAddIp (L : Library Pcre) (fuel : Nat) (ip : CString) : AclM Pcre Int := do
  match L.corkIpInit ip with
  | none => return -1
  | some (.v4 addr) =>
    let _ ← onIpset .blackList .inet (ipsetIpv4Add fuel addr)
    return 0
  | some (.v6 addr) =>
    let _ ← onIpset .blackList .inet6 (ipsetIpv6Add fuel addr)
    return 0

def aclRemoveIp (L : Library Pcre) (fuel : Nat) (ip : CString) : AclM Pcre Int := do
  match L.corkIpInit ip with
  | none => return -1
  | some (.v4 addr) =>
    let _ ← onIpset .blackList .inet (ipsetIpv4Remove fuel addr)
    return 0
  | some (.v6 addr) =>
    let _ ← onIpset .blackList .inet6 (ipsetIpv6Remove fuel addr)
    return 0

def outboundBlockMatchHost (L : Library Pcre) (fuel : Nat) (host : CString) : AclM Pcre Int := do
  match L.corkIpInit host with
  | none =>
    let acl ← get
    if (lookupRule L acl.outboundBlockList.rules host).isSome then return 1 else return 0
  | some addr => if ← containsIp fuel .outboundBlockList addr then return 1 else return 0

end Acl

end Xsocks
