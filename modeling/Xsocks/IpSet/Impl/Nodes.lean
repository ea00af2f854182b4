import Mathlib.Algebra.Order.Ring.Int
import Mathlib.Logic.Function.Basic

/-!
This module contains the nodes of the binary decision diagrams of `deps/libipset`: the functions of
`bdd/basics.c` and `bdd/reachable.c` over a cache of nodes that counts the references to them. Bit 0 of
a node ID tells terminals and nonterminals apart, and the value stands in the other bits.
-/

namespace Xsocks.IpSet

def IPSET_TERMINAL_NODE : Nat := 1

def IPSET_NONTERMINAL_NODE : Nat := 0

def ipsetNodeGetType (nodeId : Nat) : Nat :=
  nodeId % 2

def ipsetTerminalValue (nodeId : Nat) : Nat :=
  nodeId / 2

def ipsetTerminalNodeId (value : Nat) : Nat :=
  2 * value % 2 ^ 32 + IPSET_TERMINAL_NODE

def ipsetNonterminalValue (nodeId : Nat) : Nat :=
  nodeId / 2

def ipsetNonterminalNodeId (value : Nat) : Nat :=
  2 * value % 2 ^ 32 + IPSET_NONTERMINAL_NODE

structure Contents where
  var : Nat
  low : Nat
  high : Nat
  deriving DecidableEq

structure Node where
  refcount : Nat
  contents : Contents
  deriving DecidableEq

def IPSET_BDD_NODE_CACHE_SIZE : Nat := 2 ^ 6

def IPSET_NULL_INDEX : Nat := 2 ^ 32 - 1

structure NodeCache where
  chunks : Nat
  nodes : Nat → Node
  largestIndex : Nat
  /-- The rest of the free list is in the reference counts of its nodes. -/
  freeList : Nat
  nodeCache : Contents → Option Nat

inductive Fault where
  /-- An access outside of the memory that belongs to an object. -/
  | outOfBounds
  /-- The recursion is deeper than the fuel of the model. -/
  | outOfFuel
  deriving DecidableEq

abbrev Cache := EStateM Fault NodeCache

def ipsetNodeCacheNew : NodeCache where
  chunks := 0
  nodes _ := ⟨0, ⟨0, 0, 0⟩⟩
  largestIndex := 0
  freeList := IPSET_NULL_INDEX
  nodeCache _ := none

/-- A node of `ipset_node_cache_get_nonterminal_by_index` is read. -/
def derefIndex (index : Nat) : Cache Node := do
  let cache ← get
  if index / IPSET_BDD_NODE_CACHE_SIZE < cache.chunks then return cache.nodes index else throw .outOfBounds

def assignIndex (index : Nat) (f : Node → Node) : Cache Unit := do
  let node ← derefIndex index
  modify fun cache => { cache with nodes := Function.update cache.nodes index (f node) }

def deref (nodeId : Nat) : Cache Node :=
  derefIndex (ipsetNonterminalValue nodeId)

def ipsetNodeCacheAllocNode : Cache Nat := do
  let cache ← get
  if cache.freeList = IPSET_NULL_INDEX then
    let nextIndex := cache.largestIndex
    modify fun cache => { cache with largestIndex := (nextIndex + 1) % 2 ^ 32 }
    if cache.chunks ≤ nextIndex / IPSET_BDD_NODE_CACHE_SIZE then
      modify fun cache => { cache with chunks := cache.chunks + 1 }
    return nextIndex
  else
    let nextIndex := cache.freeList
    let node ← derefIndex nextIndex
    modify fun cache => { cache with freeList := node.refcount }
    return nextIndex

def ipsetNodeIncref (nodeId : Nat) : Cache Nat := do
  if ipsetNodeGetType nodeId = IPSET_NONTERMINAL_NODE then
    assignIndex (ipsetNonterminalValue nodeId) fun node => { node with refcount := node.refcount + 1 }
  return nodeId

def decrement (refcount : Nat) : Nat :=
  if refcount = 0 then 2 ^ 32 - 1 else refcount - 1

def hashDelete (contents : Contents) : Cache Unit :=
  modify fun cache => { cache with nodeCache := Function.update cache.nodeCache contents none }

def ipsetNodeDecref : (fuel : Nat) → Nat → Cache Unit
  | 0, _ => throw .outOfFuel
  | fuel + 1, nodeId => do
    if ipsetNodeGetType nodeId = IPSET_NONTERMINAL_NODE then
      let node ← deref nodeId
      assignIndex (ipsetNonterminalValue nodeId) fun node => { node with refcount := decrement node.refcount }
      if decrement node.refcount = 0 then
        ipsetNodeDecref fuel node.contents.low
        ipsetNodeDecref fuel node.contents.high
        hashDelete node.contents
        let cache ← get
        assignIndex (ipsetNonterminalValue nodeId) fun node => { node with refcount := cache.freeList }
        modify fun cache => { cache with freeList := ipsetNonterminalValue nodeId }

def ipsetNodeCacheNonterminal (fuel : Nat) (var : Nat) (low high : Nat) : Cache Nat := do
  if low = high then
    ipsetNodeDecref fuel high
    return low
  else
    let cache ← get
    match cache.nodeCache ⟨var, low, high⟩ with
    | some nodeId =>
      let nodeId ← ipsetNodeIncref nodeId
      ipsetNodeDecref fuel low
      ipsetNodeDecref fuel high
      return nodeId
    | none =>
      let newIndex ← ipsetNodeCacheAllocNode
      let newNodeId := ipsetNonterminalNodeId newIndex
      assignIndex newIndex fun _ => ⟨1, ⟨var, low, high⟩⟩
      modify fun cache =>
        { cache with nodeCache := Function.update cache.nodeCache ⟨var, low, high⟩ (some newNodeId) }
      return newNodeId

/-- The value of a variable, `none` if it lies outside of the object that the values are read from. -/
def Assignment := Nat → Option Bool

/-- `assignment(user_data, variable)` -/
def Assignment.value (assignment : Assignment) (var : Nat) : Cache Bool :=
  match assignment var with
  | some value => return value
  | none => throw .outOfBounds

def ipsetNodeEvaluate : (fuel : Nat) → Nat → Assignment → Cache Nat
  | 0, _, _ => throw .outOfFuel
  | fuel + 1, currNodeId, assignment => do
    if ipsetNodeGetType currNodeId = IPSET_NONTERMINAL_NODE then
      let node ← deref currNodeId
      if ← assignment.value node.contents.var then
        ipsetNodeEvaluate fuel node.contents.high assignment
      else ipsetNodeEvaluate fuel node.contents.low assignment
    else return ipsetTerminalValue currNodeId

structure FakeNode where
  currentVar : Nat
  varCount : Nat
  assignment : Assignment
  value : Nat

def FakeNode.terminal0 (f : FakeNode) : FakeNode where
  currentVar := f.varCount
  varCount := f.varCount
  assignment _ := none
  value := 0

def FakeNode.next (f : FakeNode) : FakeNode :=
  { f with currentVar := f.currentVar + 1 }

inductive Branches where
  | h (contents : Contents)
  | f (h_low h_high : Nat)

def FakeNode.branches (f : FakeNode) (h : Nat) : Cache Branches := do
  if ipsetNodeGetType h = IPSET_NONTERMINAL_NODE then
    let h_node ← deref h
    if h_node.contents.var < f.currentVar then return .h h_node.contents
    else if h_node.contents.var = f.currentVar then return .f h_node.contents.low h_node.contents.high
    else return .f h h
  else return .f h h

def ipsetApplyIte : (fuel : Nat) → FakeNode → (g : Nat) → (h : Nat) → Cache Nat
  | 0, _, _, _ => throw .outOfFuel
  | fuel + 1, f, g, h => do
    if f.currentVar = f.varCount then
      if f.value = 0 then ipsetNodeIncref h else return ipsetTerminalNodeId g
    else if h = ipsetTerminalNodeId g then return h
    else
      let branches ← f.branches h
      match branches with
      | .h h_node =>
        let resultHigh ← ipsetApplyIte fuel f g h_node.high
        let resultLow ← ipsetApplyIte fuel f g h_node.low
        ipsetNodeCacheNonterminal fuel h_node.var resultLow resultHigh
      | .f h_low h_high =>
        if ← f.assignment.value f.currentVar then
          let resultHigh ← ipsetApplyIte fuel f.next g h_high
          let resultLow ← ipsetApplyIte fuel f.terminal0 g h_low
          ipsetNodeCacheNonterminal fuel f.currentVar resultLow resultHigh
        else
          let resultHigh ← ipsetApplyIte fuel f.terminal0 g h_high
          let resultLow ← ipsetApplyIte fuel f.next g h_low
          ipsetNodeCacheNonterminal fuel f.currentVar resultLow resultHigh

def ipsetNodeInsert (fuel : Nat) (node : Nat) (assignment : Assignment) (varCount value : Nat)
    : Cache Nat :=
  ipsetApplyIte fuel ⟨0, varCount, assignment, 1⟩ value node

def ipsetNodeCacheNodesEqual
    : (fuel : Nat) → (cache1 : NodeCache) → Nat → (cache2 : NodeCache) → Nat → Except Fault Bool
  | 0, _, _, _, _ => .error .outOfFuel
  | fuel + 1, cache1, nodeId1, cache2, nodeId2 => do
    if ipsetNodeGetType nodeId1 ≠ ipsetNodeGetType nodeId2 then return false
    else if ipsetNodeGetType nodeId1 = IPSET_TERMINAL_NODE then return nodeId1 = nodeId2
    else
      let node1 ← node cache1 nodeId1
      let node2 ← node cache2 nodeId2
      if node1.contents.var ≠ node2.contents.var then return false
      else if ← ipsetNodeCacheNodesEqual fuel cache1 node1.contents.low cache2 node2.contents.low then
        ipsetNodeCacheNodesEqual fuel cache1 node1.contents.high cache2 node2.contents.high
      else return false
where
  node (cache : NodeCache) (nodeId : Nat) : Except Fault Node :=
    match deref nodeId cache with
    | .ok node _ => .ok node
    | .error e _ => .error e

/-- The nonterminals among the children of a node, as `ipset_node_reachable_count` appends them. -/
def Contents.nonterminals (contents : Contents) : List Nat :=
  [contents.low, contents.high].filter fun nodeId => ipsetNodeGetType nodeId = IPSET_NONTERMINAL_NODE

/-- The loop of `ipset_node_reachable_count`. The head of the list is the end of the queue. -/
def reachableLoop
    : (fuel : Nat) → (visited : List Nat) → (queue : List Nat) → (nodeCount : Nat) → Cache Nat
  | 0, _, _, _ => throw .outOfFuel
  | _ + 1, _, [], nodeCount => return nodeCount
  | fuel + 1, visited, curr :: queue, nodeCount => do
    if curr ∈ visited then reachableLoop fuel visited queue nodeCount
    else
      let node ← deref curr
      reachableLoop fuel (curr :: visited) (node.contents.nonterminals.reverse ++ queue) (nodeCount + 1)

def ipsetNodeReachableCount (fuel : Nat) (node : Nat) : Cache Nat :=
  if ipsetNodeGetType node = IPSET_NONTERMINAL_NODE then reachableLoop fuel [] [node] 0
  else reachableLoop fuel [] [] 0

end Xsocks.IpSet
