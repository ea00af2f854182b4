import Xsocks.IpSet.Impl.Nodes
import Xsocks.Protocol.Impl.Socks5

/-!
This module contains the sets of IP addresses of `deps/libipset/src/set`. The functions of
`inspection-template.c.in` have the address family as a parameter.
-/

namespace Xsocks

structure IpSet where
  cache : IpSet.NodeCache
  setBdd : Nat

namespace IpSet

def IP_BIT_SIZE (f : Family) : Nat :=
  8 * f.size

def IP_DISCRIMINATOR_VALUE : Family → Bool
  | .inet => true
  | .inet6 => false

def IPSET_BIT_ON_MASK (i : Nat) : Byte :=
  0x80 >>> UInt8.ofNat (i % 8)

def IPSET_BIT_GET (array : List Byte) (i : Nat) : Option Bool :=
  array[i / 8]?.map fun byte => byte &&& IPSET_BIT_ON_MASK i ≠ 0

inductive CorkIp where
  | v4 (ip : Bytes Family.inet.size)
  | v6 (ip : Bytes Family.inet6.size)

abbrev SetM := EStateM Fault IpSet

def onCache {α : Type} (x : Cache α) : SetM α := fun set =>
  match x set.cache with
  | .ok a cache => .ok a { set with cache := cache }
  | .error e cache => .error e { set with cache := cache }

def ipsetInit : IpSet where
  cache := ipsetNodeCacheNew
  setBdd := ipsetTerminalNodeId 0

/-- The nodes of the set are given up before their cache is freed. -/
def ipsetDone (fuel : Nat) : SetM Unit := do
  let set ← get
  onCache (ipsetNodeDecref fuel set.setBdd)

def ipsetIsEmpty (set : IpSet) : Bool :=
  set.setBdd = ipsetTerminalNodeId 0

def ipsetIsEqual (fuel : Nat) (set1 set2 : IpSet) : Except Fault Bool :=
  ipsetNodeCacheNodesEqual fuel set1.cache set1.setBdd set2.cache set2.setBdd

/-- `ipset_memory_size`, in nodes. -/
def ipsetMemorySize (fuel : Nat) : SetM Nat := do
  let set ← get
  onCache (ipsetNodeReachableCount fuel set.setBdd)

section

variable (f : Family) (fuel : Nat) (elem : Bytes f.size)

def ipsetIpvXBitForVar (var : Nat) : Nat :=
  var - 1

def ipsetIpvXAssignment : Assignment := fun var =>
  if var = 0 then some (IP_DISCRIMINATOR_VALUE f) else IPSET_BIT_GET elem.val (ipsetIpvXBitForVar var)

def ipsetContainsIpvX : SetM Bool := do
  let set ← get
  let value ← onCache (ipsetNodeEvaluate fuel set.setBdd (ipsetIpvXAssignment f elem))
  return value ≠ 0

def ipsetIpvXInsert (varCount value : Nat) : SetM Bool := do
  let set ← get
  let newBdd ← onCache (ipsetNodeInsert fuel set.setBdd (ipsetIpvXAssignment f elem) varCount value)
  onCache (ipsetNodeDecref fuel set.setBdd)
  modify fun set => { set with setBdd := newBdd }
  return newBdd = set.setBdd

def ipsetIpvXAddNetwork (cidrPrefix : Nat) : SetM Bool :=
  if cidrPrefix > IP_BIT_SIZE f then return false else ipsetIpvXInsert f fuel elem (cidrPrefix + 1) 1

def ipsetIpvXAdd : SetM Bool :=
  ipsetIpvXInsert f fuel elem (IP_BIT_SIZE f + 1) 1

def ipsetIpvXRemove : SetM Bool :=
  ipsetIpvXInsert f fuel elem (IP_BIT_SIZE f + 1) 0

def ipsetIpvXRemoveNetwork (cidrPrefix : Nat) : SetM Bool :=
  if cidrPrefix > IP_BIT_SIZE f then return false else ipsetIpvXInsert f fuel elem (cidrPrefix + 1) 0

end

section

variable (fuel : Nat)

def ipsetIpv4Add (elem : Bytes Family.inet.size) : SetM Bool :=
  ipsetIpvXAdd .inet fuel elem

def ipsetIpv4AddNetwork (elem : Bytes Family.inet.size) (cidrPrefix : Nat) : SetM Bool :=
  ipsetIpvXAddNetwork .inet fuel elem cidrPrefix

def ipsetIpv4Remove (elem : Bytes Family.inet.size) : SetM Bool :=
  ipsetIpvXRemove .inet fuel elem

def ipsetIpv4RemoveNetwork (elem : Bytes Family.inet.size) (cidrPrefix : Nat) : SetM Bool :=
  ipsetIpvXRemoveNetwork .inet fuel elem cidrPrefix

def ipsetContainsIpv4 (elem : Bytes Family.inet.size) : SetM Bool :=
  ipsetContainsIpvX .inet fuel elem

def ipsetIpv6Add (elem : Bytes Family.inet6.size) : SetM Bool :=
  ipsetIpvXAdd .inet6 fuel elem

def ipsetIpv6AddNetwork (elem : Bytes Family.inet6.size) (cidrPrefix : Nat) : SetM Bool :=
  ipsetIpvXAddNetwork .inet6 fuel elem cidrPrefix

def ipsetIpv6Remove (elem : Bytes Family.inet6.size) : SetM Bool :=
  ipsetIpvXRemove .inet6 fuel elem

def ipsetIpv6RemoveNetwork (elem : Bytes Family.inet6.size) (cidrPrefix : Nat) : SetM Bool :=
  ipsetIpvXRemoveNetwork .inet6 fuel elem cidrPrefix

def ipsetContainsIpv6 (elem : Bytes Family.inet6.size) : SetM Bool :=
  ipsetContainsIpvX .inet6 fuel elem

def ipsetIpAdd : CorkIp → SetM Bool
  | .v4 ip => ipsetIpv4Add fuel ip
  | .v6 ip => ipsetIpv6Add fuel ip

def ipsetIpAddNetwork : CorkIp → (cidrPrefix : Nat) → SetM Bool
  | .v4 ip, cidrPrefix => ipsetIpv4AddNetwork fuel ip cidrPrefix
  | .v6 ip, cidrPrefix => ipsetIpv6AddNetwork fuel ip cidrPrefix

def ipsetIpRemove : CorkIp → SetM Bool
  | .v4 ip => ipsetIpv4Remove fuel ip
  | .v6 ip => ipsetIpv6Remove fuel ip

def ipsetIpRemoveNetwork : CorkIp → (cidrPrefix : Nat) → SetM Bool
  | .v4 ip, cidrPrefix => ipsetIpv4RemoveNetwork fuel ip cidrPrefix
  | .v6 ip, cidrPrefix => ipsetIpv6RemoveNetwork fuel ip cidrPrefix

def ipsetContainsIp : CorkIp → SetM Bool
  | .v4 ip => ipsetContainsIpv4 fuel ip
  | .v6 ip => ipsetContainsIpv6 fuel ip

end

end IpSet

end Xsocks
