import Xsocks.IpSet.Lemmas.Cache

/-!
This module contains the rules for the functions of `bdd/basics.c` that make new nodes: after
`ipset_node_insert` the diagram has the new value at the given assignment and is otherwise the old one.
-/

namespace Xsocks.IpSet

open Wp RefCount NodeCache

namespace NodeCache

structure Reserved (c : NodeCache) (live : Finset Nat) (i : Nat) (c' : NodeCache) : Prop where
  nodes : c'.nodes = c.nodes
  nodeCache : c'.nodeCache = c.nodeCache
  chunks : c'.largestIndex ≤ IPSET_BDD_NODE_CACHE_SIZE * c'.chunks
  largestIndex : c.largestIndex ≤ c'.largestIndex ∧ c'.largestIndex ≤ c.largestIndex + 1
  lt : i < c'.largestIndex
  fresh : 2 * i ∉ live
  free : ∃ frees, FreeList c'.nodes c'.freeList frees ∧ frees.Nodup
    ∧ ∀ j, j ∈ frees ↔ j < c'.largestIndex ∧ j ≠ i ∧ 2 * j ∉ live

def created (c : NodeCache) (i : Nat) (contents : Contents) : NodeCache :=
  { c with
    nodes := Function.update c.nodes i ⟨1, contents⟩
    nodeCache := Function.update c.nodeCache contents (some (2 * i)) }

/-- The nodes `live` are still what they were, and all references but one to `id` are the old ones. -/
structure Returns (c : NodeCache) (V : Nat) (R : Multiset Nat) (live : Finset Nat) (n : Nat) (P : Bdd Nat → Prop)
    (id : Nat) (c' : NodeCache) : Prop where
  wf : ∃ live', live ⊆ live' ∧ c'.Wf V (id ::ₘ R) live' ∅
  contents : ∀ id ∈ live, c'.contents id = c.contents id
  largestIndex : c'.largestIndex ≤ c.largestIndex + n
  rep : ∃ t, c'.Rep id t ∧ P t

section

variable {c c' : NodeCache} {V n x : Nat} {R : Multiset Nat} {live : Finset Nat} {id : Nat} {t lo hi : Bdd Nat}
  {low high : Nat}

theorem Rep.of_contents (h : c.Rep id t) (hwf : c.Wf V R live ∅) (hvalid : Valid live id)
    (heq : ∀ id ∈ live, c'.contents id = c.contents id)
    : c'.Rep id t := by
  induction h with
  | terminal hid => exact .terminal hid
  | @nonterminal id lo hi hid _ _ ihlo ihhi =>
    have hmem := hvalid.mem_live hid
    have hlo := ihlo (hwf.valid_low hmem)
    have hhi := ihhi (hwf.valid_high hmem)
    rw [← heq id hmem] at hlo hhi ⊢
    exact .nonterminal hid hlo hhi

theorem Valid.mono {live' : Finset Nat} (h : Valid live id) (hsub : live ⊆ live') : Valid live' id :=
  h.imp_right fun hmem => hsub hmem

theorem wp_ipsetNodeCacheAllocNode (h : c.Wf V R live ∅) (hlt : c.largestIndex < 2 ^ 31)
    : wp ipsetNodeCacheAllocNode (fun i c' => c.Reserved live i c') (fun _ _ => False) c := by
  rw [ipsetNodeCacheAllocNode, wp_bind, wp_get]
  obtain ⟨frees, hlist, hnodup, hfrees⟩ := h.free
  simp only [Finset.notMem_empty, not_false_eq_true, and_true] at hfrees
  have hchunks := h.chunks
  have hfresh : 2 * c.largestIndex ∉ live := by
    intro hmem
    have := (h.lt _ (.inl hmem)).2
    omega
  split
  . next hnull =>
    have hnil : frees = [] := by
      cases frees with
      | nil => rfl
      | cons i is =>
        obtain ⟨hhead, hne, -⟩ := hlist
        rw [hnull] at hhead
        exact absurd hhead.symm hne
    subst hnil
    have hmod : (c.largestIndex + 1) % 2 ^ 32 = c.largestIndex + 1 := Nat.mod_eq_of_lt (by omega)
    have hnone : ∀ j, j ∈ ([] : List Nat) ↔ j < c.largestIndex + 1 ∧ j ≠ c.largestIndex ∧ 2 * j ∉ live := by
      intro j
      rw [hfrees]
      constructor
      . rintro ⟨hj, hlive⟩
        exact ⟨by omega, by omega, hlive⟩
      . rintro ⟨hj, hne, hlive⟩
        exact ⟨by omega, hlive⟩
    dsimp only
    rw [wp_bind, wp_modify, hmod]
    split
    . next hfull =>
      rw [wp_bind, wp_modify, wp_pure]
      refine ⟨rfl, rfl, ?_, ⟨by dsimp only; omega, Nat.le_refl _⟩, Nat.lt_succ_self _, hfresh, [], hlist, hnodup, hnone⟩
      dsimp only
      unfold IPSET_BDD_NODE_CACHE_SIZE at hchunks ⊢
      omega
    . next hroom =>
      rw [wp_pure]
      refine ⟨rfl, rfl, ?_, ⟨by dsimp only; omega, Nat.le_refl _⟩, Nat.lt_succ_self _, hfresh, [], hlist, hnodup, hnone⟩
      dsimp only
      unfold IPSET_BDD_NODE_CACHE_SIZE at hchunks hroom ⊢
      omega
  . next hne =>
    cases frees with
    | nil => exact absurd hlist hne
    | cons i is =>
      obtain ⟨hhead, -, hrest⟩ := hlist
      rw [List.nodup_cons] at hnodup
      have hi := (hfrees i).mp List.mem_cons_self
      have hindex : c.freeList / IPSET_BDD_NODE_CACHE_SIZE < c.chunks := by
        rw [hhead, Nat.div_lt_iff_lt_mul (by decide), Nat.mul_comm]
        exact Nat.lt_of_lt_of_le hi.1 hchunks
      dsimp only
      rw [wp_bind, wp_derefIndex hindex, wp_bind, wp_modify, wp_pure, hhead]
      refine ⟨rfl, rfl, hchunks, ⟨Nat.le_refl _, Nat.le_succ _⟩, hi.1, hi.2, is, hrest, hnodup.2, fun j => ?_⟩
      have hj := hfrees j
      rw [List.mem_cons] at hj
      constructor
      . intro hmem
        obtain ⟨hlt, hlive⟩ := hj.mp (.inr hmem)
        refine ⟨hlt, ?_, hlive⟩
        rintro rfl
        exact hnodup.1 hmem
      . rintro ⟨hlt, hne, hlive⟩
        exact (hj.mpr ⟨hlt, hlive⟩).resolve_left hne

theorem contents_created_self {i : Nat} {k : Contents} : (c.created i k).contents (2 * i) = k := by
  unfold NodeCache.contents NodeCache.node created ipsetNonterminalValue
  dsimp only
  rw [Nat.mul_div_cancel_left i (by decide), Function.update_self]

namespace Reserved

variable {i : Nat}

theorem free_created {k : Contents} (h : c.Reserved live i c')
    : ∃ frees, FreeList (c'.created i k).nodes (c'.created i k).freeList frees ∧ frees.Nodup
        ∧ ∀ j, j ∈ frees
          ↔ j < (c'.created i k).largestIndex ∧ 2 * j ∉ insert (2 * i) live ∧ 2 * j ∉ (∅ : Finset Nat) := by
  obtain ⟨frees, hlist, hnodup, hfrees⟩ := h.free
  refine ⟨frees, ?_, hnodup, fun j => ?_⟩
  . apply hlist.congr
    intro j hj
    unfold created
    dsimp only
    rw [Function.update_of_ne ((hfrees j).mp hj).2.1]
  . rw [hfrees, Finset.mem_insert]
    have hiff : 2 * j = 2 * i ↔ j = i := by omega
    simp only [hiff, not_or, Finset.notMem_empty, not_false_eq_true, and_true, ne_eq]
    rfl

section

variable {k : Contents} (h : c.Reserved live i c') (hwf : c.Wf V R live ∅)

include h hwf

theorem node_created (hid : id ∈ live) : (c'.created i k).node id = c.node id := by
  have hne : ipsetNonterminalValue id ≠ i := by
    rintro rfl
    have := (hwf.lt id (.inl hid)).1
    apply h.fresh
    unfold ipsetNonterminalValue
    rw [Nat.mul_div_cancel' (Nat.dvd_of_mod_eq_zero this)]
    exact hid
  unfold NodeCache.node created
  dsimp only
  rw [Function.update_of_ne hne, h.nodes]

theorem contents_created (hid : id ∈ live) : (c'.created i k).contents id = c.contents id := by
  unfold NodeCache.contents
  rw [h.node_created hwf hid]

theorem children_created (hid : id ∈ live) : (c'.created i k).children id = c.children id := by
  unfold children
  rw [h.contents_created hwf hid]

theorem lt_created (id : Nat) (hid : id ∈ insert (2 * i) live ∨ id ∈ (∅ : Finset Nat))
    : id % 2 = 0 ∧ id / 2 < (c'.created i k).largestIndex := by
  rcases hid with hid | hid
  . rcases Finset.mem_insert.mp hid with rfl | hid
    . refine ⟨by omega, ?_⟩
      rw [Nat.mul_div_cancel_left i (by decide)]
      exact h.lt
    . exact ⟨(hwf.lt id (.inl hid)).1, Nat.lt_of_lt_of_le (hwf.lt id (.inl hid)).2 h.largestIndex.1⟩
  . exact absurd hid (Finset.notMem_empty id)

theorem refs_fresh : refs c.children live R (2 * i) = 0 := by
  have hfresh : ¬ Valid live (2 * i) := by
    rintro (hodd | hmem)
    . omega
    . exact h.fresh hmem
  apply Nat.eq_zero_of_not_pos
  rw [refs_pos_iff]
  rintro (hroot | ⟨j, hj, hchild⟩)
  . exact hfresh (hwf.root _ hroot)
  . exact hfresh (hwf.child j hj _ hchild)

theorem hash_created (hnew : c.nodeCache k = none) (k' : Contents) (id : Nat)
    : (c'.created i k).nodeCache k' = some id
        ↔ (id ∈ insert (2 * i) live ∨ id ∈ (∅ : Finset Nat)) ∧ (c'.created i k).contents id = k' := by
  have hself : (c'.created i k).contents (2 * i) = k := contents_created_self
  have hcache : (c'.created i k).nodeCache = Function.update c.nodeCache k (some (2 * i)) := by
    unfold created
    rw [h.nodeCache]
  rw [hcache, Finset.mem_insert, or_iff_left (Finset.notMem_empty id)]
  by_cases hk : k' = k
  . rw [hk, Function.update_self, Option.some.injEq]
    constructor
    . rintro rfl
      exact ⟨.inl rfl, hself⟩
    . rintro ⟨rfl | hid, hcontents⟩
      . rfl
      . rw [h.contents_created hwf hid] at hcontents
        have := (hwf.hash _ id).mpr ⟨.inl hid, hcontents⟩
        rw [hnew] at this
        contradiction
  . rw [Function.update_of_ne hk, hwf.hash k' id, or_iff_left (Finset.notMem_empty id)]
    constructor
    . rintro ⟨hid, hcontents⟩
      exact ⟨.inr hid, by rw [h.contents_created hwf hid]; exact hcontents⟩
    . rintro ⟨rfl | hid, hcontents⟩
      . rw [hself] at hcontents
        exact absurd hcontents.symm hk
      . rw [h.contents_created hwf hid] at hcontents
        exact ⟨hid, hcontents⟩

end

theorem children_created_self
    : (c'.created i ⟨x, low, high⟩).children (2 * i) + R = low ::ₘ high ::ₘ R := by
  unfold children
  rw [contents_created_self, Multiset.insert_eq_cons, Multiset.cons_add, Multiset.singleton_add]

theorem valid_of_child (hwf : c.Wf V (low ::ₘ high ::ₘ R) live ∅) (hid : id = low ∨ id = high) : Valid live id := by
  apply hwf.root
  rcases hid with rfl | rfl
  . exact Multiset.mem_cons_self _ _
  . exact Multiset.mem_cons_of_mem (Multiset.mem_cons_self _ _)

theorem root_created (hwf : c.Wf V (low ::ₘ high ::ₘ R) live ∅) (id : Nat) (hid : id ∈ 2 * i ::ₘ R)
    : Valid (insert (2 * i) live) id := by
  rcases Multiset.mem_cons.mp hid with rfl | hid
  . exact .inr (Finset.mem_insert_self _ _)
  . exact (hwf.root id (Multiset.mem_cons_of_mem (Multiset.mem_cons_of_mem hid))).mono (Finset.subset_insert _ _)

section

variable (h : c.Reserved live i c') (hwf : c.Wf V (low ::ₘ high ::ₘ R) live ∅)

include h hwf

theorem child_created (id : Nat) (hid : id ∈ insert (2 * i) live) (child : Nat)
    (hchild : child ∈ (c'.created i ⟨x, low, high⟩).children id)
    : Valid (insert (2 * i) live) child := by
  apply Valid.mono _ (Finset.subset_insert _ _)
  rcases Finset.mem_insert.mp hid with rfl | hid
  . rw [mem_children, contents_created_self] at hchild
    exact valid_of_child hwf hchild
  . rw [h.children_created hwf hid] at hchild
    exact hwf.child id hid child hchild

theorem ordered_created (hvar : ∀ id, id = low ∨ id = high → id ∈ live → x < (c.contents id).var) (id : Nat)
    (hid : id ∈ insert (2 * i) live) (child : Nat) (hchild : child ∈ (c'.created i ⟨x, low, high⟩).children id)
    (hmem : child ∈ insert (2 * i) live)
    : ((c'.created i ⟨x, low, high⟩).contents id).var < ((c'.created i ⟨x, low, high⟩).contents child).var := by
  have hvalid : Valid live child → child ∈ live := by
    intro hvalid
    rcases Finset.mem_insert.mp hmem with rfl | hmem
    . exact hvalid.mem_live (by omega)
    . exact hmem
  rcases Finset.mem_insert.mp hid with rfl | hid
  . rw [mem_children, contents_created_self] at hchild
    have hmem := hvalid (valid_of_child hwf hchild)
    rw [contents_created_self, h.contents_created hwf hmem]
    exact hvar child hchild hmem
  . rw [h.children_created hwf hid] at hchild
    have hmem := hvalid (hwf.child id hid _ hchild)
    rw [h.contents_created hwf hid, h.contents_created hwf hmem]
    exact hwf.ordered id hid child hchild hmem

theorem refs_created (id : Nat)
    : refs (c'.created i ⟨x, low, high⟩).children (insert (2 * i) live) R id
        = refs c.children live (low ::ₘ high ::ₘ R) id := by
  rw [refs_insert h.fresh, children_created_self, refs_congr fun id hid => h.children_created hwf hid]

theorem refs_created_of_mem (hid : id ∈ live)
    : refs (c'.created i ⟨x, low, high⟩).children (insert (2 * i) live) (2 * i ::ₘ R) id
        = refs c.children live (low ::ₘ high ::ₘ R) id := by
  have hne : id ≠ 2 * i := by
    rintro rfl
    exact h.fresh hid
  rw [refs_cons_of_ne hne, h.refs_created hwf]

theorem refcount_created (id : Nat) (hid : id ∈ insert (2 * i) live)
    : ((c'.created i ⟨x, low, high⟩).node id).refcount
        = refs (c'.created i ⟨x, low, high⟩).children (insert (2 * i) live) (2 * i ::ₘ R) id := by
  rcases Finset.mem_insert.mp hid with rfl | hid
  . rw [refs_cons_self, h.refs_created hwf, h.refs_fresh hwf]
    unfold NodeCache.node created ipsetNonterminalValue
    dsimp only
    rw [Nat.mul_div_cancel_left i (by decide), Function.update_self]
  . rw [h.refs_created_of_mem hwf hid, h.node_created hwf hid]
    exact hwf.refcount id hid

theorem pos_created (id : Nat) (hid : id ∈ insert (2 * i) live)
    : 0 < refs (c'.created i ⟨x, low, high⟩).children (insert (2 * i) live) (2 * i ::ₘ R) id := by
  rcases Finset.mem_insert.mp hid with rfl | hid
  . rw [refs_cons_self]
    exact Nat.succ_pos _
  . rw [h.refs_created_of_mem hwf hid]
    exact hwf.pos id hid

theorem wf (hlargest : c'.largestIndex ≤ 2 ^ 31) (hne : low ≠ high) (hx : x < V)
    (hvar : ∀ id, id = low ∨ id = high → id ∈ live → x < (c.contents id).var)
    (hnew : c.nodeCache ⟨x, low, high⟩ = none)
    : (c'.created i ⟨x, low, high⟩).Wf V (2 * i ::ₘ R) (insert (2 * i) live) ∅ := by
  have hself : (c'.created i ⟨x, low, high⟩).contents (2 * i) = ⟨x, low, high⟩ := contents_created_self
  constructor
  case chunks => exact h.chunks
  case largestIndex => exact hlargest
  case free => exact h.free_created
  case lt => exact h.lt_created hwf
  case disjoint => exact fun id _ => Finset.notMem_empty id
  case root => exact root_created hwf
  case child => exact h.child_created hwf
  case reduced =>
    intro id hid
    rcases Finset.mem_insert.mp hid with rfl | hid
    . rw [hself]
      exact hne
    . rw [h.contents_created hwf hid]
      exact hwf.reduced id hid
  case var_lt =>
    intro id hid
    rcases Finset.mem_insert.mp hid with rfl | hid
    . rw [hself]
      exact hx
    . rw [h.contents_created hwf hid]
      exact hwf.var_lt id hid
  case ordered => exact h.ordered_created hwf hvar
  case refcount => exact h.refcount_created hwf
  case pos => exact h.pos_created hwf
  case hash => exact h.hash_created hwf hnew

end

end Reserved

theorem ipsetNonterminalNodeId_of_lt {i : Nat} (h : i < 2 ^ 31) : ipsetNonterminalNodeId i = 2 * i := by
  unfold ipsetNonterminalNodeId IPSET_NONTERMINAL_NODE
  omega

theorem wp_ipsetNodeCacheNonterminal (h : c.Wf V (low ::ₘ high ::ₘ R) live ∅) (hlt : c.largestIndex < 2 ^ 31)
    (hx : x < V) (hlo : c.Rep low lo) (hhi : c.Rep high hi) (holo : lo.Ordered (x + 1) V)
    (hohi : hi.Ordered (x + 1) V) (fuel : Nat)
    : wp (ipsetNodeCacheNonterminal (fuel + 1) x low high)
        (c.Returns V R live 1 (· = .mk x lo hi)) (fun _ _ => False) c := by
  have hvlow : Valid live low := h.root low (Multiset.mem_cons_self _ _)
  have hvhigh : Valid live high := h.root high (Multiset.mem_cons_of_mem (Multiset.mem_cons_self _ _))
  rw [ipsetNodeCacheNonterminal]
  split
  . next heq =>
    subst heq
    have hmk : Bdd.mk x lo hi = lo := by rw [Bdd.mk, if_pos (hlo.functional hhi)]
    have hshared : low ∈ live → 0 < refs c.children live (low ::ₘ R) low := by
      intro _
      rw [refs_cons_self]
      exact Nat.succ_pos _
    rw [wp_bind]
    apply wp_mono (wp_ipsetNodeDecref_shared h hshared fuel) _ fun _ _ hF => hF
    rintro _ c' ⟨hwf, hsame, hlargest⟩
    rw [wp_pure]
    refine ⟨⟨live, Finset.Subset.refl _, hwf⟩, fun id _ => hsame id, by omega, lo, hlo.congr hsame, hmk.symm⟩
  . next hne =>
    have hmk : Bdd.mk x lo hi = .node x lo hi := by
      rw [Bdd.mk, if_neg]
      rintro rfl
      exact hne (h.rep_inj hvlow hvhigh hlo hhi)
    rw [wp_bind, wp_get]
    split
    . next nodeId hfound =>
      obtain ⟨hid, hcontents⟩ := (h.hash _ nodeId).mp hfound
      replace hid := hid.resolve_right (Finset.notMem_empty nodeId)
      rw [wp_bind]
      apply wp_mono (wp_ipsetNodeIncref h (.inr hid)) _ fun _ _ hF => hF
      rintro nodeId' c₁ ⟨heq, hwf₁, hsame₁, hlargest₁⟩
      subst heq
      -- The references to the children can be released, since the node has its own ones.
      rw [Multiset.cons_swap, Multiset.cons_swap _ high] at hwf₁
      have hshared₁ : low ∈ live → 0 < refs c₁.children live (high ::ₘ nodeId' ::ₘ R) low := by
        intro _
        apply refs_pos_of_mem_children hid
        rw [mem_children, hsame₁, hcontents]
        exact .inl rfl
      rw [wp_bind]
      apply wp_mono (wp_ipsetNodeDecref_shared hwf₁ hshared₁ fuel) _ fun _ _ hF => hF
      rintro _ c₂ ⟨hwf₂, hsame₂, hlargest₂⟩
      have hshared₂ : high ∈ live → 0 < refs c₂.children live (nodeId' ::ₘ R) high := by
        intro _
        apply refs_pos_of_mem_children hid
        rw [mem_children, hsame₂, hsame₁, hcontents]
        exact .inr rfl
      rw [wp_bind]
      apply wp_mono (wp_ipsetNodeDecref_shared hwf₂ hshared₂ fuel) _ fun _ _ hF => hF
      rintro _ c₃ ⟨hwf₃, hsame₃, hlargest₃⟩
      have hsame : ∀ id, c₃.contents id = c.contents id := fun id => by rw [hsame₃, hsame₂, hsame₁]
      have hrep : c.Rep nodeId' (.node x lo hi) := .node (h.lt _ (.inl hid)).1 hcontents hlo hhi
      rw [wp_pure]
      exact ⟨⟨live, Finset.Subset.refl _, hwf₃⟩, fun id _ => hsame id, by omega, _, hrep.congr hsame, hmk.symm⟩
    . next hnew =>
      rw [wp_bind]
      apply wp_mono (wp_ipsetNodeCacheAllocNode h hlt) _ fun _ _ hF => hF
      intro i c' hreserved
      have hlargest := hreserved.largestIndex
      have hindex : i / IPSET_BDD_NODE_CACHE_SIZE < c'.chunks := by
        rw [Nat.div_lt_iff_lt_mul (by decide), Nat.mul_comm]
        exact Nat.lt_of_lt_of_le hreserved.lt hreserved.chunks
      have hlt_i := hreserved.lt
      dsimp only
      rw [wp_bind, wp_assignIndex hindex, wp_bind, wp_modify, wp_pure,
        ipsetNonterminalNodeId_of_lt (by omega)]
      have hvar : ∀ id, id = low ∨ id = high → id ∈ live → x < (c.contents id).var := by
        rintro id hchild hid
        have heven := (h.lt id (.inl hid)).1
        rcases hchild with rfl | rfl
        . cases hlo with
          | terminal => omega
          | nonterminal => exact holo.1
        . cases hhi with
          | terminal => omega
          | nonterminal => exact hohi.1
      have hwf := hreserved.wf h (by omega) hne hx hvar hnew
      have hold : ∀ id ∈ live, (c'.created i ⟨x, low, high⟩).contents id = c.contents id :=
        fun id hid => hreserved.contents_created h hid
      have hrep : (c'.created i ⟨x, low, high⟩).Rep (2 * i) (.node x lo hi) := by
        apply Rep.node (Nat.mul_mod_right 2 i) contents_created_self
        . exact hlo.of_contents h hvlow hold
        . exact hhi.of_contents h hvhigh hold
      exact ⟨⟨_, Finset.subset_insert _ _, hwf⟩, hold, hlargest.2, _, hrep, hmk.symm⟩

end

end NodeCache

def Matches (σ : Nat → Bool) (n m : Nat) (τ : Nat → Bool) : Prop :=
  ∀ x, n ≤ x → x < m → τ x = σ x

structure Inserted (V : Nat) (σ : Nat → Bool) (n m g : Nat) (t u : Bdd Nat) : Prop where
  ordered : u.Ordered n V
  eval : ∀ τ, (Matches σ n m τ → u.eval τ = g) ∧ (¬ Matches σ n m τ → u.eval τ = t.eval τ)

section

variable {c c' : NodeCache} {V n m g : Nat} {R : Multiset Nat} {live : Finset Nat} {σ : Nat → Bool} {h : Nat}
  {t tlo thi : Bdd Nat} {f : FakeNode}

theorem matches_iff_of_lt (hlt : n < m) {τ : Nat → Bool} : Matches σ n m τ ↔ τ n = σ n ∧ Matches σ (n + 1) m τ := by
  constructor
  . intro hall
    exact ⟨hall n (Nat.le_refl n) hlt, fun x hx => hall x (Nat.le_of_succ_le hx)⟩
  . rintro ⟨hn, hall⟩ x hx hxm
    rcases Nat.eq_or_lt_of_le hx with rfl | hx
    . exact hn
    . exact hall x hx hxm

theorem Inserted.of_branches (hlt : n < m) (hnV : n < V) (htlo : tlo.Ordered (n + 1) V) (hthi : thi.Ordered (n + 1) V)
    (ht : ∀ τ, t.eval τ = if τ n then thi.eval τ else tlo.eval τ) {lo hi : Bdd Nat}
    (hhi : if σ n then Inserted V σ (n + 1) m g thi hi else hi = thi)
    (hlo : if σ n then lo = tlo else Inserted V σ (n + 1) m g tlo lo)
    : Inserted V σ n m g t (.mk n lo hi) := by
  cases hσ : σ n with
  | false =>
    rw [hσ, if_neg (by simp)] at hhi hlo
    subst hhi
    refine ⟨Bdd.ordered_mk (Nat.le_refl n) hnV hlo.ordered hthi, fun τ => ?_⟩
    rw [Bdd.eval_mk, ht, matches_iff_of_lt hlt, hσ]
    cases τ n with
    | true => simp
    | false => simpa using hlo.eval τ
  | true =>
    rw [hσ, if_pos rfl] at hhi hlo
    subst hlo
    refine ⟨Bdd.ordered_mk (Nat.le_refl n) hnV htlo hhi.ordered, fun τ => ?_⟩
    rw [Bdd.eval_mk, ht, matches_iff_of_lt hlt, hσ]
    cases τ n with
    | true => simpa using hhi.eval τ
    | false => simp

theorem ipsetTerminalNodeId_of_lt (hg : g < 2 ^ 31)
    : ipsetTerminalNodeId g % 2 = 1 ∧ ipsetTerminalNodeId g / 2 = g := by
  unfold ipsetTerminalNodeId IPSET_TERMINAL_NODE
  omega

theorem wp_branches (hwf : c.Wf V R live ∅) (hvalid : Valid live h) (ht : c.Rep h t)
    (hordered : t.Ordered f.currentVar V)
    : wp (f.branches h)
        (fun b c' => c' = c ∧ ∃ h_low h_high tlo thi, b = .f h_low h_high ∧ Valid live h_low ∧ Valid live h_high
          ∧ c.Rep h_low tlo ∧ c.Rep h_high thi ∧ tlo.Ordered (f.currentVar + 1) V
          ∧ thi.Ordered (f.currentVar + 1) V
          ∧ ∀ τ, t.eval τ = if τ f.currentVar then thi.eval τ else tlo.eval τ)
        (fun _ _ => False) c := by
  have hboth : ∀ {u : Bdd Nat} (τ : Nat → Bool), u.eval τ = if τ f.currentVar then u.eval τ else u.eval τ :=
    fun _ => by rw [ite_self]
  rw [FakeNode.branches]
  cases ht with
  | terminal hodd =>
    rw [if_neg (by unfold ipsetNodeGetType IPSET_NONTERMINAL_NODE; omega), wp_pure]
    exact ⟨rfl, h, h, _, _, rfl, hvalid, hvalid, .terminal hodd, .terminal hodd, trivial, trivial, hboth⟩
  | @nonterminal _ lo hi heven hlo hhi =>
    have hmem := hvalid.mem_live heven
    obtain ⟨hle, hlt, holo, hohi⟩ := hordered
    rw [if_pos (hwf.ipsetNodeGetType_of_live hmem), wp_bind, wp_deref hwf hmem]
    change f.currentVar ≤ (c.node h).contents.var at hle
    rw [if_neg (Nat.not_lt_of_le hle)]
    split
    . next heq =>
      rw [wp_pure]
      change c.Rep (c.node h).contents.low lo at hlo
      change c.Rep (c.node h).contents.high hi at hhi
      change lo.Ordered ((c.node h).contents.var + 1) V at holo
      change hi.Ordered ((c.node h).contents.var + 1) V at hohi
      rw [heq] at holo hohi
      refine ⟨rfl, _, _, lo, hi, rfl, hwf.valid_low hmem, hwf.valid_high hmem, hlo, hhi, holo, hohi, fun τ => ?_⟩
      rw [Bdd.eval, ← heq]
      rfl
    . next hne =>
      rw [wp_pure]
      have hordered : (Bdd.node (c.contents h).var lo hi).Ordered (f.currentVar + 1) V :=
        ⟨Nat.lt_of_le_of_ne hle (Ne.symm hne), hlt, holo, hohi⟩
      have hrep : c.Rep h (.node (c.contents h).var lo hi) := .nonterminal heven hlo hhi
      exact ⟨rfl, h, h, _, _, rfl, hvalid, hvalid, hrep, hrep, hordered, hordered, hboth⟩

theorem ipsetApplyIte_terminal0 (fuel : Nat)
    : ipsetApplyIte (fuel + 1) f.terminal0 g h = ipsetNodeIncref h := by
  rw [ipsetApplyIte, if_pos (show f.terminal0.currentVar = f.terminal0.varCount from rfl),
    if_pos (show f.terminal0.value = 0 from rfl)]

/-- The recursion is on the number of variables that are left in `f`. -/
theorem wp_ipsetApplyIte (hwf : c.Wf V R live ∅) (hvalid : Valid live h) (ht : c.Rep h t)
    (hordered : t.Ordered f.currentVar V) (hle : f.currentVar ≤ f.varCount) (hV : f.varCount ≤ V)
    (hvalue : f.value ≠ 0) (hassignment : ∀ x, x < f.varCount → f.assignment x = some (σ x)) (hg : g < 2 ^ 31)
    (hlargest : c.largestIndex + (f.varCount - f.currentVar) ≤ 2 ^ 31) {fuel : Nat}
    (hfuel : f.varCount - f.currentVar < fuel)
    : wp (ipsetApplyIte fuel f g h)
        (c.Returns V R live (f.varCount - f.currentVar) (Inserted V σ f.currentVar f.varCount g t))
        (fun _ _ => False) c := by
  obtain ⟨hodd, hhalf⟩ := ipsetTerminalNodeId_of_lt hg
  induction hr : f.varCount - f.currentVar generalizing c R live h t f fuel with
  | zero =>
    have hend : f.currentVar = f.varCount := by omega
    obtain ⟨fuel, rfl⟩ : ∃ n, fuel = n + 1 := ⟨fuel - 1, by omega⟩
    rw [ipsetApplyIte, if_pos hend, if_neg hvalue, wp_pure]
    have hmatches : ∀ τ, Matches σ f.currentVar f.varCount τ := by
      intro τ x hx hlt
      omega
    have hinserted : Inserted V σ f.currentVar f.varCount g t (.leaf g) :=
      ⟨trivial, fun τ => ⟨fun _ => rfl, fun hnot => absurd (hmatches τ) hnot⟩⟩
    have hrep := Rep.terminal (c := c) hodd
    rw [hhalf] at hrep
    exact ⟨⟨live, Finset.Subset.refl _, hwf.cons_terminal hodd⟩, fun _ _ => rfl, Nat.le_refl _, _, hrep, hinserted⟩
  | succ r ih =>
    have hlt : f.currentVar < f.varCount := by omega
    obtain ⟨fuel, rfl⟩ : ∃ n, fuel = n + 1 + 1 := ⟨fuel - 2, by omega⟩
    rw [ipsetApplyIte, if_neg (by omega)]
    split
    . next heq =>
      subst heq
      have hleaf : t = .leaf g := by
        have hrep := Rep.terminal (c := c) hodd
        rw [hhalf] at hrep
        exact ht.functional hrep
      subst hleaf
      rw [wp_pure]
      refine ⟨⟨live, Finset.Subset.refl _, hwf.cons_terminal hodd⟩, fun _ _ => rfl, by omega, _, ht, trivial, ?_⟩
      exact fun τ => ⟨fun _ => rfl, fun _ => rfl⟩
    . rw [wp_bind]
      apply wp_mono (wp_branches hwf hvalid ht hordered) _ fun _ _ hF => hF
      rintro _ _ ⟨rfl, h_low, h_high, tlo, thi, rfl, hvlow, hvhigh, htlo, hthi, hotlo, hothi, heval⟩
      have hnext : f.next.varCount - f.next.currentVar = r := by
        unfold FakeNode.next
        dsimp only
        omega
      have hfuel_next : f.next.varCount - f.next.currentVar < fuel + 1 := by omega
      dsimp only
      rw [wp_bind, Assignment.value, hassignment f.currentVar hlt, wp_pure]
      cases hσ : σ f.currentVar with
      | true =>
        rw [if_pos rfl, wp_bind]
        have hrec := ih (f := f.next) hwf hvhigh hthi hothi hlt hV hvalue hassignment
          (by unfold FakeNode.next; dsimp only; omega) hfuel_next hnext
        apply wp_mono hrec _ fun _ _ hF => hF
        rintro resultHigh c₁ ⟨⟨live₁, hsub₁, hwf₁⟩, hcontents₁, hlargest₁, hi, hhi, hinserted⟩
        rw [wp_bind, ipsetApplyIte_terminal0]
        apply wp_mono (wp_ipsetNodeIncref hwf₁ (hvlow.mono hsub₁)) _ fun _ _ hF => hF
        rintro resultLow c₂ ⟨heq, hwf₂, hsame₂, hlargest₂⟩
        subst heq
        have htlo₂ := (htlo.of_contents hwf hvlow hcontents₁).congr hsame₂
        apply wp_mono (wp_ipsetNodeCacheNonterminal hwf₂ (by omega) (by omega) htlo₂ (hhi.congr hsame₂) hotlo
          hinserted.ordered fuel) _ fun _ _ hF => hF
        rintro id c₃ ⟨⟨live₃, hsub₃, hwf₃⟩, hcontents₃, hlargest₃, _, hrep, rfl⟩
        refine ⟨⟨live₃, hsub₁.trans hsub₃, hwf₃⟩, fun id hid => ?_, by omega, _, hrep, ?_⟩
        . rw [hcontents₃ id (hsub₁ hid), hsame₂, hcontents₁ id hid]
        . apply Inserted.of_branches hlt (by omega) hotlo hothi heval
          . rw [if_pos hσ]
            exact hinserted
          . rw [if_pos hσ]
      | false =>
        rw [if_neg (by simp), wp_bind, ipsetApplyIte_terminal0]
        apply wp_mono (wp_ipsetNodeIncref hwf hvhigh) _ fun _ _ hF => hF
        rintro resultHigh c₁ ⟨heq, hwf₁, hsame₁, hlargest₁⟩
        subst heq
        rw [wp_bind]
        have hrec := ih (f := f.next) hwf₁ hvlow (htlo.congr hsame₁) hotlo hlt hV hvalue hassignment
          (by unfold FakeNode.next; dsimp only; omega) hfuel_next hnext
        apply wp_mono hrec _ fun _ _ hF => hF
        rintro resultLow c₂ ⟨⟨live₂, hsub₂, hwf₂⟩, hcontents₂, hlargest₂, lo, hlo, hinserted⟩
        have hthi₂ := (hthi.congr hsame₁).of_contents hwf₁ hvhigh hcontents₂
        apply wp_mono (wp_ipsetNodeCacheNonterminal hwf₂ (by omega) (by omega) hlo hthi₂ hinserted.ordered
          hothi fuel) _ fun _ _ hF => hF
        rintro id c₃ ⟨⟨live₃, hsub₃, hwf₃⟩, hcontents₃, hlargest₃, _, hrep, rfl⟩
        refine ⟨⟨live₃, hsub₂.trans hsub₃, hwf₃⟩, fun id hid => ?_, by omega, _, hrep, ?_⟩
        . rw [hcontents₃ id (hsub₂ hid), hcontents₂ id hid, hsame₁]
        . apply Inserted.of_branches hlt (by omega) hotlo hothi heval
          . rw [if_neg (by simp [hσ])]
          . rw [if_neg (by simp [hσ])]
            exact hinserted

theorem wp_ipsetNodeInsert (hwf : c.Wf V R live ∅) (hvalid : Valid live h) (ht : c.Rep h t) {varCount : Nat}
    (hV : varCount ≤ V) {assignment : Assignment} (hassignment : ∀ x, x < varCount → assignment x = some (σ x))
    (hg : g < 2 ^ 31) (hlargest : c.largestIndex + varCount ≤ 2 ^ 31) {fuel : Nat} (hfuel : varCount < fuel)
    : wp (ipsetNodeInsert fuel h assignment varCount g)
        (c.Returns V R live varCount (Inserted V σ 0 varCount g t)) (fun _ _ => False) c := by
  exact wp_ipsetApplyIte (f := ⟨0, varCount, assignment, 1⟩) hwf hvalid ht (hwf.ordered_of_rep hvalid ht)
    (Nat.zero_le _) hV Nat.one_ne_zero hassignment hg hlargest hfuel

theorem wp_ipsetNodeEvaluate (hwf : c.Wf V R live ∅) (hvalid : Valid live h) (ht : c.Rep h t)
    {assignment : Assignment} (hassignment : ∀ x, t.Asks σ x → assignment x = some (σ x)) {fuel : Nat}
    (hfuel : t.depth < fuel)
    : wp (ipsetNodeEvaluate fuel h assignment) (fun value c' => value = t.eval σ ∧ c' = c) (fun _ _ => False)
        c := by
  induction ht generalizing fuel with
  | @terminal id hodd =>
    obtain ⟨fuel, rfl⟩ : ∃ n, fuel = n + 1 := ⟨fuel - 1, by omega⟩
    rw [ipsetNodeEvaluate, if_neg (by unfold ipsetNodeGetType IPSET_NONTERMINAL_NODE; omega), wp_pure]
    exact ⟨rfl, rfl⟩
  | @nonterminal id lo hi heven hlo hhi ihlo ihhi =>
    obtain ⟨fuel, rfl⟩ : ∃ n, fuel = n + 1 := ⟨fuel - 1, by omega⟩
    have hmem := hvalid.mem_live heven
    have hvalue : Assignment.value assignment (c.contents id).var = pure (σ (c.contents id).var) := by
      rw [Assignment.value, hassignment _ (.inl rfl)]
    rw [Bdd.depth] at hfuel
    rw [ipsetNodeEvaluate, if_pos (hwf.ipsetNodeGetType_of_live hmem), wp_bind, wp_deref hwf hmem, wp_bind]
    change wp (Assignment.value assignment (c.contents id).var) _ _ _
    rw [hvalue, wp_pure, Bdd.eval]
    cases hσ : σ (c.contents id).var with
    | true =>
      apply ihhi (hwf.valid_high hmem) _ (by omega)
      intro x hx
      exact hassignment x (.inr (by rw [hσ]; exact hx))
    | false =>
      apply ihlo (hwf.valid_low hmem) _ (by omega)
      intro x hx
      exact hassignment x (.inr (by rw [hσ]; exact hx))

end

end Xsocks.IpSet
