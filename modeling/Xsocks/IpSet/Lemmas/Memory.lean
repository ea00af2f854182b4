import Xsocks.IpSet.Lemmas.Ops

/-!
This module contains what a set of IP addresses keeps in memory: no node is kept without need, the nodes
depend on the members of the set only, and nothing is left when the set is given up.
-/

def Bdd.inner {α : Type} [DecidableEq α] : Bdd α → Finset (Bdd α)
  | .leaf _ => ∅
  | .node x lo hi => insert (.node x lo hi) (inner lo ∪ inner hi)

namespace Xsocks.IpSet

open Wp RefCount NodeCache

section

variable {c : NodeCache} {V : Nat} {R : Multiset Nat} {live : Finset Nat} {id root : Nat} {t u : Bdd Nat}

theorem inner_subset (h : u ∈ t.inner) : u.inner ⊆ t.inner := by
  induction t with
  | leaf a => exact absurd h (Finset.notMem_empty u)
  | node x lo hi ihlo ihhi =>
    rw [Bdd.inner, Finset.mem_insert, Finset.mem_union] at h
    rcases h with rfl | hlo | hhi
    . exact Finset.Subset.refl _
    . intro w hw
      exact Finset.mem_insert_of_mem (Finset.mem_union_left _ (ihlo hlo hw))
    . intro w hw
      exact Finset.mem_insert_of_mem (Finset.mem_union_right _ (ihhi hhi hw))

theorem reachable_of_live (h : c.Wf V R live ∅) (hid : id ∈ live) : Reachable c.children live R id := by
  apply reachable_of_refs_pos (fun id => (c.contents id).var) _ h.pos hid
  intro j hj i hi hchild
  exact h.ordered j hj i hchild hi

theorem mem_inner_of_live (h : c.Wf V {root} live ∅) (ht : c.Rep root t) (hid : id ∈ live) (hu : c.Rep id u)
    : u ∈ t.inner := by
  induction reachable_of_live h hid generalizing u with
  | root hroot =>
    rw [Multiset.mem_singleton.mp hroot] at hid hu
    obtain rfl := ht.functional hu
    cases hu with
    | terminal hodd =>
      have := (h.lt root (.inl hid)).1
      omega
    | nonterminal => exact Finset.mem_insert_self _ _
  | @child i j _ hj hchild ih =>
    obtain ⟨w, hw, -⟩ := h.exists_rep (n := 0) (.inr hj) fun _ => Nat.zero_le _
    apply inner_subset (ih hj hw)
    have hself : ∀ {v : Bdd Nat}, c.Rep i v → v ∈ v.inner := by
      intro v hv
      cases hv with
      | terminal hodd =>
        have := (h.lt i (.inl hid)).1
        omega
      | nonterminal => exact Finset.mem_insert_self _ _
    cases hw with
    | terminal hodd =>
      have := (h.lt j (.inl hj)).1
      omega
    | nonterminal _ hlo hhi =>
      rw [mem_children] at hchild
      rcases hchild with rfl | rfl
      . rw [hu.functional hlo]
        exact Finset.mem_insert_of_mem (Finset.mem_union_left _ (hself hlo))
      . rw [hu.functional hhi]
        exact Finset.mem_insert_of_mem (Finset.mem_union_right _ (hself hhi))

theorem exists_live_of_mem_inner (h : c.Wf V R live ∅) (hvalid : Valid live id) (ht : c.Rep id t) (hu : u ∈ t.inner)
    : ∃ id ∈ live, c.Rep id u := by
  induction ht with
  | terminal => exact absurd hu (Finset.notMem_empty u)
  | @nonterminal id lo hi heven hlo hhi ihlo ihhi =>
    have hmem := hvalid.mem_live heven
    rw [Bdd.inner, Finset.mem_insert, Finset.mem_union] at hu
    rcases hu with rfl | hu | hu
    . exact ⟨id, hmem, .nonterminal heven hlo hhi⟩
    . exact ihlo (h.valid_low hmem) hu
    . exact ihhi (h.valid_high hmem) hu

theorem card_live (h : c.Wf V {root} live ∅) (ht : c.Rep root t) : live.card = t.inner.card := by
  have hrep : ∀ id ∈ live, ∃ u, c.Rep id u := by
    intro id hid
    obtain ⟨u, hu, -⟩ := h.exists_rep (n := 0) (.inr hid) fun _ => Nat.zero_le _
    exact ⟨u, hu⟩
  have : Nonempty (Bdd Nat) := ⟨t⟩
  choose! f hf using hrep
  apply Finset.card_bij fun id _ => f id
  . intro id hid
    exact mem_inner_of_live h ht hid (hf id hid)
  . intro id hid id' hid' heq
    have hrep' := hf id' hid'
    rw [← heq] at hrep'
    exact h.rep_inj (.inr hid) (.inr hid') (hf id hid) hrep'
  . intro u hu
    obtain ⟨id, hid, hrep⟩ := exists_live_of_mem_inner h (h.root root (Multiset.mem_singleton_self root)) ht hu
    exact ⟨id, hid, (hf id hid).functional hrep⟩

theorem mem_nonterminals (h : c.Wf V R live ∅) (hid : id ∈ live) {child : Nat}
    : child ∈ (c.contents id).nonterminals ↔ child ∈ c.children id ∧ child ∈ live := by
  rw [Contents.nonterminals, List.mem_filter, mem_children, List.mem_cons, List.mem_singleton, decide_eq_true_iff]
  constructor
  . rintro ⟨hchild, htype⟩
    exact ⟨hchild, (h.child id hid child (mem_children.mpr hchild)).mem_live htype⟩
  . rintro ⟨hchild, hmem⟩
    exact ⟨hchild, (h.lt child (.inl hmem)).1⟩

/-- The invariant is that children of visited nodes are visited, or they wait in the queue. -/
theorem wp_reachableLoop (h : c.Wf V R live ∅) {fuel : Nat} {visited queue : List Nat}
    (hvisited : ∀ id ∈ visited, id ∈ live) (hnodup : visited.Nodup) (hqueue : ∀ id ∈ queue, id ∈ live)
    (hchildren : ∀ id ∈ visited, ∀ child ∈ c.children id, child ∈ live → child ∈ visited ∨ child ∈ queue)
    (hroots : ∀ id ∈ R, id ∈ live → id ∈ visited ∨ id ∈ queue)
    (hfuel : queue.length + 2 * (live.card - visited.length) < fuel)
    : wp (reachableLoop fuel visited queue visited.length) (fun n c' => n = live.card ∧ c' = c)
        (fun _ _ => False) c := by
  induction fuel generalizing visited queue with
  | zero => exact absurd hfuel (Nat.not_lt_zero _)
  | succ fuel ih =>
    cases queue with
    | nil =>
      have hall : ∀ id ∈ live, id ∈ visited := by
        intro id hid
        induction reachable_of_live h hid with
        | root hroot => exact (hroots _ hroot hid).resolve_right List.not_mem_nil
        | child _ hj hchild ihj => exact (hchildren _ (ihj hj) _ hchild hid).resolve_right List.not_mem_nil
      rw [reachableLoop, wp_pure]
      refine ⟨?_, rfl⟩
      rw [← List.toFinset_card_of_nodup hnodup]
      congr 1
      ext id
      rw [List.mem_toFinset]
      exact ⟨hvisited id, hall id⟩
    | cons curr queue =>
      rw [List.length_cons] at hfuel
      have hcurr : curr ∈ live := hqueue curr List.mem_cons_self
      have hqueue' : ∀ id ∈ queue, id ∈ live := fun id hid => hqueue id (List.mem_cons_of_mem _ hid)
      rw [reachableLoop]
      split
      . next hmem =>
        have hskip : ∀ id, id ∈ visited ∨ id ∈ curr :: queue → id ∈ visited ∨ id ∈ queue := by
          rintro id (hid | hid)
          . exact .inl hid
          . rcases List.mem_cons.mp hid with rfl | hid
            . exact .inl hmem
            . exact .inr hid
        apply ih hvisited hnodup hqueue' _ _ (by omega)
        . exact fun id hid child hchild hlive => hskip child (hchildren id hid child hchild hlive)
        . exact fun id hid hlive => hskip id (hroots id hid hlive)
      . next hnew =>
        rw [wp_bind, wp_deref h hcurr]
        have hnodup' : (curr :: visited).Nodup := List.nodup_cons.mpr ⟨hnew, hnodup⟩
        have hvisited' : ∀ id ∈ curr :: visited, id ∈ live := by
          intro id hid
          rcases List.mem_cons.mp hid with rfl | hid
          . exact hcurr
          . exact hvisited id hid
        have hcard : (curr :: visited).length ≤ live.card := by
          rw [← List.toFinset_card_of_nodup hnodup']
          apply Finset.card_le_card
          intro id hid
          exact hvisited' id (List.mem_toFinset.mp hid)
        have hmem : ∀ {id}, id ∈ (c.node curr).contents.nonterminals.reverse ++ queue
            ↔ (id ∈ c.children curr ∧ id ∈ live) ∨ id ∈ queue := by
          intro id
          rw [List.mem_append, List.mem_reverse, ← mem_nonterminals h hcurr]
          rfl
        have hmove : ∀ id, id ∈ visited ∨ id ∈ curr :: queue
            → id ∈ curr :: visited ∨ id ∈ (c.node curr).contents.nonterminals.reverse ++ queue := by
          rintro id (hid | hid)
          . exact .inl (List.mem_cons_of_mem _ hid)
          . rcases List.mem_cons.mp hid with rfl | hid
            . exact .inl List.mem_cons_self
            . exact .inr (List.mem_append_right _ hid)
        have hlength : (c.node curr).contents.nonterminals.length ≤ 2 := List.length_filter_le _ _
        apply ih hvisited' hnodup'
        . intro id hid
          rcases hmem.mp hid with hid | hid
          . exact hid.2
          . exact hqueue' id hid
        . intro id hid child hchild hlive
          rcases List.mem_cons.mp hid with rfl | hid
          . exact .inr (hmem.mpr (.inl ⟨hchild, hlive⟩))
          . exact hmove child (hchildren id hid child hchild hlive)
        . exact fun id hid hlive => hmove id (hroots id hid hlive)
        . rw [List.length_append, List.length_reverse]
          rw [List.length_cons] at hcard ⊢
          omega

theorem wp_ipsetNodeReachableCount (h : c.Wf V {root} live ∅) {fuel : Nat} (hfuel : 2 * live.card + 1 < fuel)
    : wp (ipsetNodeReachableCount fuel root) (fun n c' => n = live.card ∧ c' = c) (fun _ _ => False) c := by
  rw [ipsetNodeReachableCount]
  have hnone : ∀ {p : Nat → Prop}, ∀ id ∈ ([] : List Nat), p id := fun id hid => absurd hid List.not_mem_nil
  split
  . next htype =>
    have hroot := (h.root root (Multiset.mem_singleton_self root)).mem_live htype
    apply wp_reachableLoop h hnone List.nodup_nil _ hnone
    . intro id hid _
      rw [Multiset.mem_singleton.mp hid]
      exact .inr List.mem_cons_self
    . rw [List.length_singleton, List.length_nil]
      omega
    . intro id hid
      rw [List.mem_singleton.mp hid]
      exact hroot
  . next htype =>
    apply wp_reachableLoop h hnone List.nodup_nil hnone hnone
    . intro id hid hlive
      rw [Multiset.mem_singleton.mp hid] at hlive
      exact absurd (h.ipsetNodeGetType_of_live hlive) htype
    . rw [List.length_nil]
      omega

theorem ipsetNodeCacheNodesEqual_node (h : c.Wf V R live ∅) (hid : id ∈ live)
    : ipsetNodeCacheNodesEqual.node c id = .ok (c.node id) := by
  have hderef := (wp_deref h hid (Q := fun node _ => node = c.node id) (F := fun _ _ => False)).mpr rfl
  unfold wp at hderef
  unfold ipsetNodeCacheNodesEqual.node
  split at hderef
  . next heq => rw [heq, hderef]
  . exact hderef.elim

theorem ipsetNodeCacheNodesEqual_iff {c' : NodeCache} {R' : Multiset Nat} {live' : Finset Nat} {id' : Nat}
    (h : c.Wf V R live ∅) (h' : c'.Wf V R' live' ∅) (hvalid : Valid live id) (hvalid' : Valid live' id')
    (ht : c.Rep id t) (hu : c'.Rep id' u) {fuel : Nat} (hfuel : t.depth < fuel)
    : ∃ result, ipsetNodeCacheNodesEqual fuel c id c' id' = .ok result ∧ (result = true ↔ t = u) := by
  induction ht generalizing id' u fuel with
  | @terminal id hodd =>
    obtain ⟨fuel, rfl⟩ : ∃ n, fuel = n + 1 := ⟨fuel - 1, by omega⟩
    rw [ipsetNodeCacheNodesEqual]
    cases hu with
    | terminal hodd' =>
      have htype : ipsetNodeGetType id = ipsetNodeGetType id' := hodd.trans hodd'.symm
      rw [if_neg (not_not_intro htype), if_pos (show ipsetNodeGetType id = IPSET_TERMINAL_NODE from hodd)]
      refine ⟨_, rfl, ?_⟩
      rw [decide_eq_true_iff, Bdd.leaf.injEq]
      omega
    | nonterminal heven' =>
      rw [if_pos (by unfold ipsetNodeGetType; omega)]
      exact ⟨false, rfl, by simp⟩
  | @nonterminal id lo hi heven hlo hhi ihlo ihhi =>
    obtain ⟨fuel, rfl⟩ : ∃ n, fuel = n + 1 := ⟨fuel - 1, by omega⟩
    have hmem := hvalid.mem_live heven
    rw [Bdd.depth] at hfuel
    have hfuel_lo : lo.depth < fuel := by omega
    have hfuel_hi : hi.depth < fuel := by omega
    rw [ipsetNodeCacheNodesEqual]
    cases hu with
    | terminal hodd' =>
      rw [if_pos (by unfold ipsetNodeGetType; omega)]
      exact ⟨false, rfl, by simp⟩
    | @nonterminal _ lo' hi' heven' hlo' hhi' =>
      have hmem' := hvalid'.mem_live heven'
      have htype : ipsetNodeGetType id = ipsetNodeGetType id' := heven.trans heven'.symm
      have hterminal : ipsetNodeGetType id ≠ IPSET_TERMINAL_NODE := by
        rw [h.ipsetNodeGetType_of_live hmem]
        decide
      rw [if_neg (not_not_intro htype), if_neg hterminal, ipsetNodeCacheNodesEqual_node h hmem,
        ipsetNodeCacheNodesEqual_node h' hmem', Bdd.node.injEq]
      change ∃ result, (if (c.contents id).var ≠ (c'.contents id').var then _ else _) = _ ∧ _
      by_cases hvar : (c.contents id).var = (c'.contents id').var
      . obtain ⟨low, hlow, hlow_iff⟩ :=
          ihlo (h.valid_low hmem) (h'.valid_low hmem') hlo' hfuel_lo
        rw [if_neg (not_not_intro hvar)]
        change ∃ result, (ipsetNodeCacheNodesEqual fuel c (c.contents id).low c' (c'.contents id').low >>= _) = _ ∧ _
        rw [hlow]
        cases low with
        | false =>
          refine ⟨false, rfl, ?_⟩
          have hne : lo ≠ lo' := fun heq => absurd (hlow_iff.mpr heq) (by simp)
          simp [hne]
        | true =>
          obtain ⟨high, hhigh, hhigh_iff⟩ :=
            ihhi (h.valid_high hmem) (h'.valid_high hmem') hhi' hfuel_hi
          refine ⟨high, hhigh, ?_⟩
          rw [hhigh_iff]
          simp [hvar, hlow_iff.mp rfl]
      . rw [if_pos hvar]
        refine ⟨false, rfl, ?_⟩
        simp [hvar]

end

/-! # Sets -/

section

variable {set : IpSet} {live : Finset Nat} {S : Set CorkIp} {ops : List Op} {fuel : Nat}

/--
Over any run of operations on a new set, each result tells whether the set changed, and the set contains exactly
the addresses that it should. No bit outside of an address is read.
-/
theorem ipset_run_contains (hops : 129 * ops.length ≤ 2 ^ 31) (hfuel : 130 ≤ fuel)
    : wp (run fuel ops)
        (fun results set => Results ∅ ops results
          ∧ ∀ addr, wp (ipsetContainsIp fuel addr)
              (fun result set' => (result = true ↔ addr ∈ applyAll ∅ ops) ∧ set' = set) (fun _ _ => False) set)
        (fun _ _ => False) ipsetInit := by
  apply wp_mono (wp_run_ipsetInit hops hfuel) _ fun _ _ hF => hF
  rintro results set ⟨hresults, live, hset⟩
  exact ⟨hresults, fun addr => wp_ipsetContainsIp hset hfuel⟩

@[irreducible]
def privateOps : List Op :=
  [.addNetwork (.v4 ⟨[10, 0, 0, 0], rfl⟩) 8, .remove (.v4 ⟨[10, 0, 0, 1], rfl⟩)]

theorem length_privateOps : 129 * privateOps.length ≤ 2 ^ 31 := by
  unfold privateOps
  decide

theorem ipset_run_contains_private
    : ∃ results set, run 130 privateOps ipsetInit = .ok results set ∧ Results ∅ privateOps results
      ∧ ∀ addr, wp (ipsetContainsIp 130 addr)
          (fun result set' => (result = true ↔ addr ∈ applyAll ∅ privateOps) ∧ set' = set) (fun _ _ => False) set :=
  exists_ok_of_wp (ipset_run_contains length_privateOps (Nat.le_refl 130))

/--
After any run the nodes in the hash table have exact reference counts, and they are all reachable from the set.
Giving the set up frees every node that was ever allocated.
-/
theorem ipset_run_memory (hops : 129 * ops.length ≤ 2 ^ 31) (hfuel : 130 ≤ fuel)
    : wp (run fuel ops)
        (fun _ set =>
          (∃ live, (∀ k id, set.cache.nodeCache k = some id ↔ id ∈ live ∧ set.cache.contents id = k)
            ∧ (∀ id ∈ live, (set.cache.node id).refcount = refs set.cache.children live {set.setBdd} id)
            ∧ ∀ id ∈ live, Reachable set.cache.children live {set.setBdd} id)
          ∧ wp (ipsetDone fuel)
              (fun _ set' => (∀ k, set'.cache.nodeCache k = none)
                ∧ ∃ frees, FreeList set'.cache.nodes set'.cache.freeList frees ∧ frees.Nodup
                  ∧ ∀ i, i ∈ frees ↔ i < set'.cache.largestIndex)
              (fun _ _ => False) set)
        (fun _ _ => False) ipsetInit := by
  apply wp_mono (wp_run_ipsetInit hops hfuel) _ fun _ _ hF => hF
  rintro results set ⟨-, live, hset⟩
  have hwf := hset.wf
  constructor
  . refine ⟨live, fun k id => ?_, hwf.refcount, fun id hid => reachable_of_live hwf hid⟩
    rw [hwf.hash, or_iff_left (Finset.notMem_empty id)]
  . obtain ⟨t, ht, -⟩ := hset.rep
    have hdepth := (hwf.ordered_of_rep hset.valid ht).depth_le
    rw [ipsetDone, wp_bind, wp_get, wp_onCache]
    apply wp_mono (wp_ipsetNodeDecref (R := 0) hwf ht (by omega)) _ fun _ _ hF => hF
    rintro _ c ⟨live', -, hwf', -, -⟩
    have hempty : live' = ∅ :=
      eq_empty_of_refs_pos (fun id => (c.contents id).var)
        (fun j hj i hi hchild => hwf'.ordered j hj i hchild hi) hwf'.pos
    subst hempty
    constructor
    . intro k
      dsimp only
      cases hk : c.nodeCache k with
      | none => rfl
      | some id =>
        have := ((hwf'.hash k id).mp hk).1
        simp at this
    . obtain ⟨frees, hlist, hnodup, hfrees⟩ := hwf'.free
      refine ⟨frees, hlist, hnodup, fun i => ?_⟩
      rw [hfrees]
      simp

theorem ipset_run_memory_private
    : ∃ results set, run 130 privateOps ipsetInit = .ok results set
      ∧ (∃ live, (∀ k id, set.cache.nodeCache k = some id ↔ id ∈ live ∧ set.cache.contents id = k)
        ∧ (∀ id ∈ live, (set.cache.node id).refcount = refs set.cache.children live {set.setBdd} id)
        ∧ ∀ id ∈ live, Reachable set.cache.children live {set.setBdd} id)
      ∧ wp (ipsetDone 130)
          (fun _ set' => (∀ k, set'.cache.nodeCache k = none)
            ∧ ∃ frees, FreeList set'.cache.nodes set'.cache.freeList frees ∧ frees.Nodup
              ∧ ∀ i, i ∈ frees ↔ i < set'.cache.largestIndex)
          (fun _ _ => False) set :=
  exists_ok_of_wp (ipset_run_memory length_privateOps (Nat.le_refl 130))

/--
Whatever the runs that made them, two sets are compared by their members, and sets with the same members have the
same size in memory.
-/
theorem ipsetIsEqual_of_run {ops' : List Op} (hops : 129 * ops.length ≤ 2 ^ 31) (hops' : 129 * ops'.length ≤ 2 ^ 31)
    (hfuel : 130 ≤ fuel)
    : wp (run fuel ops)
        (fun _ set => (ipsetIsEmpty set = true ↔ applyAll ∅ ops = ∅)
          ∧ wp (run fuel ops')
              (fun _ set' =>
                (∃ result, ipsetIsEqual fuel set set' = .ok result
                  ∧ (result = true ↔ applyAll ∅ ops = applyAll ∅ ops'))
                ∧ (applyAll ∅ ops = applyAll ∅ ops' → ∃ n, ∀ fuel', 2 * n + 1 < fuel' →
                  ipsetMemorySize fuel' set = .ok n set ∧ ipsetMemorySize fuel' set' = .ok n set'))
              (fun _ _ => False) ipsetInit)
        (fun _ _ => False) ipsetInit := by
  apply wp_mono (wp_run_ipsetInit hops hfuel) _ fun _ _ hF => hF
  rintro _ set ⟨-, live, hset⟩
  obtain ⟨t, ht, hS⟩ := hset.rep
  have hordered := hset.wf.ordered_of_rep hset.valid ht
  have hreduced := hset.wf.reduced_of_rep hset.valid ht
  constructor
  . have hempty : set.setBdd = ipsetTerminalNodeId 0 ↔ t = .leaf 0 := by
      constructor
      . intro heq
        rw [heq] at ht
        exact ht.functional (.terminal rfl)
      . rintro rfl
        exact hset.wf.rep_inj hset.valid (.inl rfl) ht (.terminal rfl)
    rw [ipsetIsEmpty, decide_eq_true_iff, hempty]
    exact hS.eq_iff (V := 129) (W := 129) denotes_empty hordered (m := 0) trivial hreduced trivial
  apply wp_mono (wp_run_ipsetInit hops' hfuel) _ fun _ _ hF => hF
  rintro _ set' ⟨-, live', hset'⟩
  obtain ⟨u, hu, hS'⟩ := hset'.rep
  have heq := hS.eq_iff hS' hordered (hset'.wf.ordered_of_rep hset'.valid hu) hreduced
    (hset'.wf.reduced_of_rep hset'.valid hu)
  constructor
  . have hdepth : t.depth < fuel := Nat.lt_of_le_of_lt hordered.depth_le (by omega)
    obtain ⟨result, hresult, hiff⟩ :=
      ipsetNodeCacheNodesEqual_iff hset.wf hset'.wf hset.valid hset'.valid ht hu hdepth
    exact ⟨result, hresult, hiff.trans heq⟩
  . intro hsame
    obtain rfl := heq.mpr hsame
    have hsize : ∀ {set : IpSet} {live : Finset Nat} {S : Set CorkIp} {fuel' : Nat}, Represents set live S
        → set.cache.Rep set.setBdd t → 2 * t.inner.card + 1 < fuel'
        → ipsetMemorySize fuel' set = .ok t.inner.card set := by
      intro set live S fuel' hset ht hfuel'
      have hcard := card_live hset.wf ht
      have hcount : wp (ipsetMemorySize fuel') (fun n set' => n = live.card ∧ set' = set) (fun _ _ => False)
          set := by
        rw [ipsetMemorySize, wp_bind, wp_get, wp_onCache]
        apply wp_mono (wp_ipsetNodeReachableCount hset.wf (by omega)) _ fun _ _ hF => hF
        rintro n _ ⟨rfl, rfl⟩
        exact ⟨rfl, rfl⟩
      obtain ⟨n, set', hok, rfl, rfl⟩ := exists_ok_of_wp hcount
      rw [hok, hcard]
    exact ⟨t.inner.card, fun fuel' hfuel' => ⟨hsize hset ht hfuel', hsize hset' hu hfuel'⟩⟩

theorem ipsetIsEqual_of_run_private
    : ∃ results set, run 130 privateOps ipsetInit = .ok results set
      ∧ (ipsetIsEmpty set = true ↔ applyAll ∅ privateOps = ∅)
      ∧ wp (run 130 privateOps)
          (fun _ set' =>
            (∃ result, ipsetIsEqual 130 set set' = .ok result
              ∧ (result = true ↔ applyAll ∅ privateOps = applyAll ∅ privateOps))
            ∧ (applyAll ∅ privateOps = applyAll ∅ privateOps → ∃ n, ∀ fuel', 2 * n + 1 < fuel' →
              ipsetMemorySize fuel' set = .ok n set ∧ ipsetMemorySize fuel' set' = .ok n set'))
          (fun _ _ => False) ipsetInit :=
  exists_ok_of_wp (ipsetIsEqual_of_run length_privateOps length_privateOps (Nat.le_refl 130))

end

end Xsocks.IpSet
