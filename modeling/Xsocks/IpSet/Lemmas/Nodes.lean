import Xsocks.IpSet.Impl.Nodes
import Xsocks.Lib.Bdd
import Xsocks.Lib.RefCount
import Xsocks.Lib.Wp

/-!
This module contains the invariant of a node cache: the nodes that are alive are ordered, reduced and
unique, and their reference counts are exact. It is kept by the functions that create, keep and release
nodes, which make the decision diagrams of `Xsocks.Lib.Bdd`.
-/

namespace Xsocks.IpSet

open Wp RefCount

namespace NodeCache

def node (c : NodeCache) (id : Nat) : Node :=
  c.nodes (ipsetNonterminalValue id)

def contents (c : NodeCache) (id : Nat) : Contents :=
  (c.node id).contents

def children (c : NodeCache) (id : Nat) : Multiset Nat :=
  {(c.contents id).low, (c.contents id).high}

def FreeList (nodes : Nat → Node) (head : Nat) : List Nat → Prop
  | [] => head = IPSET_NULL_INDEX
  | i :: is => head = i ∧ i ≠ IPSET_NULL_INDEX ∧ FreeList nodes (nodes i).refcount is

inductive Rep (c : NodeCache) : Nat → Bdd Nat → Prop where
  | terminal {id : Nat} (h : id % 2 = 1) : Rep c id (.leaf (id / 2))
  | nonterminal {id : Nat} {lo hi : Bdd Nat} (h : id % 2 = 0) (hlo : Rep c (c.contents id).low lo)
      (hhi : Rep c (c.contents id).high hi)
    : Rep c id (.node (c.contents id).var lo hi)

def Valid (live : Finset Nat) (id : Nat) : Prop :=
  id % 2 = 1 ∨ id ∈ live

/--
The nodes `live` are in use, with `roots` as the references from outside. The nodes `dying` have been given up,
but they are still in the hash table.
-/
structure Wf (c : NodeCache) (V : Nat) (roots : Multiset Nat) (live dying : Finset Nat) : Prop where
  chunks : c.largestIndex ≤ IPSET_BDD_NODE_CACHE_SIZE * c.chunks
  largestIndex : c.largestIndex ≤ 2 ^ 31
  free : ∃ frees, FreeList c.nodes c.freeList frees ∧ frees.Nodup
    ∧ ∀ i, i ∈ frees ↔ i < c.largestIndex ∧ 2 * i ∉ live ∧ 2 * i ∉ dying
  lt : ∀ id, id ∈ live ∨ id ∈ dying → id % 2 = 0 ∧ id / 2 < c.largestIndex
  disjoint : ∀ id ∈ live, id ∉ dying
  root : ∀ id ∈ roots, Valid live id
  child : ∀ id ∈ live, ∀ id' ∈ c.children id, Valid live id'
  reduced : ∀ id ∈ live, (c.contents id).low ≠ (c.contents id).high
  var_lt : ∀ id ∈ live, (c.contents id).var < V
  ordered : ∀ id ∈ live, ∀ id' ∈ c.children id, id' ∈ live → (c.contents id).var < (c.contents id').var
  refcount : ∀ id ∈ live, (c.node id).refcount = refs c.children live roots id
  pos : ∀ id ∈ live, 0 < refs c.children live roots id
  hash : ∀ k id, c.nodeCache k = some id ↔ (id ∈ live ∨ id ∈ dying) ∧ c.contents id = k

end NodeCache

section

variable {c c' : NodeCache} {V : Nat} {R : Multiset Nat} {live dying : Finset Nat} {id id' : Nat}
  {t u : Bdd Nat}

open NodeCache

theorem mem_children : id' ∈ c.children id ↔ id' = (c.contents id).low ∨ id' = (c.contents id).high := by
  unfold NodeCache.children
  simp

theorem low_mem_children : (c.contents id).low ∈ c.children id :=
  mem_children.mpr (.inl rfl)

theorem high_mem_children : (c.contents id).high ∈ c.children id :=
  mem_children.mpr (.inr rfl)

theorem NodeCache.FreeList.congr {nodes nodes' : Nat → Node} {head : Nat} {frees : List Nat}
    (h : FreeList nodes head frees) (heq : ∀ i ∈ frees, (nodes' i).refcount = (nodes i).refcount)
    : FreeList nodes' head frees := by
  induction frees generalizing head with
  | nil => exact h
  | cons i is ih =>
    obtain ⟨hhead, hne, hrest⟩ := h
    refine ⟨hhead, hne, ?_⟩
    rw [heq i List.mem_cons_self]
    exact ih hrest fun j hj => heq j (List.mem_cons_of_mem _ hj)

theorem NodeCache.Rep.node {x low high : Nat} {lo hi : Bdd Nat} (hid : id % 2 = 0) (h : c.contents id = ⟨x, low, high⟩)
    (hlo : c.Rep low lo) (hhi : c.Rep high hi)
    : c.Rep id (.node x lo hi) := by
  have hx : (c.contents id).var = x := by rw [h]
  rw [← hx]
  apply NodeCache.Rep.nonterminal hid
  . rw [h]
    exact hlo
  . rw [h]
    exact hhi

theorem NodeCache.Rep.functional (h : c.Rep id t) (h' : c.Rep id u) : t = u := by
  induction h generalizing u with
  | terminal hid =>
    cases h' with
    | terminal => rfl
    | nonterminal hid' => omega
  | nonterminal hid hlo hhi ihlo ihhi =>
    cases h' with
    | terminal hid' => omega
    | nonterminal hid' hlo' hhi' => rw [ihlo hlo', ihhi hhi']

theorem NodeCache.Valid.mem_live (hvalid : NodeCache.Valid live id) (htype : id % 2 = 0) : id ∈ live := by
  rcases hvalid with hodd | hmem
  . omega
  . exact hmem

namespace NodeCache.Wf

variable (h : c.Wf V R live dying)

include h

theorem index_lt (hid : id ∈ live ∨ id ∈ dying)
    : ipsetNonterminalValue id / IPSET_BDD_NODE_CACHE_SIZE < c.chunks := by
  have hlt := (h.lt id hid).2
  have hchunks := h.chunks
  unfold ipsetNonterminalValue
  rw [Nat.div_lt_iff_lt_mul (by decide), Nat.mul_comm]
  exact Nat.lt_of_lt_of_le hlt hchunks

theorem ipsetNodeGetType_of_live (hid : id ∈ live) : ipsetNodeGetType id = IPSET_NONTERMINAL_NODE :=
  (h.lt id (.inl hid)).1

theorem valid_low (hid : id ∈ live) : Valid live (c.contents id).low :=
  h.child id hid _ low_mem_children

theorem valid_high (hid : id ∈ live) : Valid live (c.contents id).high :=
  h.child id hid _ high_mem_children

theorem exists_rep {n : Nat} (hvalid : Valid live id) (hn : id ∈ live → n ≤ (c.contents id).var)
    : ∃ t, c.Rep id t ∧ t.Ordered n V := by
  induction hd : V - n using Nat.strongRecOn generalizing id n with
  | ind d ih =>
    subst hd
    rcases hvalid with hodd | hmem
    . exact ⟨_, .terminal hodd, trivial⟩
    . have hlt := h.var_lt id hmem
      have hle := hn hmem
      obtain ⟨lo, hlo, holo⟩ := ih _ (by omega) (h.valid_low hmem)
        (fun hlow => h.ordered id hmem _ low_mem_children hlow) rfl
      obtain ⟨hi, hhi, hohi⟩ := ih _ (by omega) (h.valid_high hmem)
        (fun hhigh => h.ordered id hmem _ high_mem_children hhigh) rfl
      exact ⟨_, .nonterminal (h.lt id (.inl hmem)).1 hlo hhi, hle, hlt, holo, hohi⟩

theorem ordered_of_rep (hvalid : Valid live id) (ht : c.Rep id t) : t.Ordered 0 V := by
  obtain ⟨u, hu, hordered⟩ := h.exists_rep hvalid fun _ => Nat.zero_le _
  rw [ht.functional hu]
  exact hordered

theorem rep_inj (hvalid : Valid live id) (hvalid' : Valid live id') (ht : c.Rep id t) (ht' : c.Rep id' t)
    : id = id' := by
  induction ht generalizing id' with
  | terminal hid =>
    generalize heq : Bdd.leaf _ = u at ht'
    cases ht' with
    | terminal hid' =>
      injection heq
      omega
    | nonterminal hid' => contradiction
  | @nonterminal id lo hi hid hlo hhi ihlo ihhi =>
    generalize heq : Bdd.node _ lo hi = u at ht'
    cases ht' with
    | terminal hid' => contradiction
    | nonterminal hid' hlo' hhi' =>
      injection heq with hvar hlo_eq hhi_eq
      subst hlo_eq
      subst hhi_eq
      have hmem := hvalid.mem_live hid
      have hmem' := hvalid'.mem_live hid'
      have hlow := ihlo (h.valid_low hmem) (h.valid_low hmem') hlo'
      have hhigh := ihhi (h.valid_high hmem) (h.valid_high hmem') hhi'
      have hkey := (h.hash (c.contents id) id).mpr ⟨.inl hmem, rfl⟩
      have hkey' := (h.hash (c.contents id) id').mpr ⟨.inl hmem', by
        rw [Contents.mk.injEq]
        exact ⟨hvar.symm, hlow.symm, hhigh.symm⟩⟩
      rw [hkey] at hkey'
      exact Option.some.inj hkey'

theorem reduced_of_rep (hvalid : Valid live id) (ht : c.Rep id t) : t.Reduced := by
  induction ht with
  | terminal hid => trivial
  | @nonterminal id lo hi hid hlo hhi ihlo ihhi =>
    have hmem := hvalid.mem_live hid
    refine ⟨?_, ihlo (h.valid_low hmem), ihhi (h.valid_high hmem)⟩
    intro heq
    rw [← heq] at hhi
    exact h.reduced id hmem (h.rep_inj (h.valid_low hmem) (h.valid_high hmem) hlo hhi)

end NodeCache.Wf

end

end Xsocks.IpSet
