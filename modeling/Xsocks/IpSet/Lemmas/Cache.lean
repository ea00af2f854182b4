import Xsocks.IpSet.Lemmas.Nodes

/-!
This module contains the rules for the functions of `bdd/basics.c` that keep and release nodes.
-/

namespace Xsocks.IpSet

open Wp RefCount NodeCache

namespace NodeCache

def setRefcount (c : NodeCache) (id n : Nat) : NodeCache :=
  { c with nodes := Function.update c.nodes (ipsetNonterminalValue id) { c.node id with refcount := n } }

def freed (c : NodeCache) (id : Nat) : NodeCache :=
  { c.setRefcount id c.freeList with
    freeList := ipsetNonterminalValue id
    nodeCache := Function.update c.nodeCache (c.contents id) none }

section

variable {c : NodeCache} {V n : Nat} {R R' : Multiset Nat} {live dying : Finset Nat} {id id' : Nat} {t : Bdd Nat}

@[simp]
theorem contents_setRefcount : (c.setRefcount id n).contents id' = c.contents id' := by
  unfold setRefcount contents node
  dsimp only
  by_cases heq : ipsetNonterminalValue id' = ipsetNonterminalValue id
  . rw [heq, Function.update_self]
  . rw [Function.update_of_ne heq]

@[simp]
theorem contents_freed : (c.freed id).contents id' = c.contents id' :=
  contents_setRefcount

@[simp]
theorem children_setRefcount : (c.setRefcount id n).children = c.children := by
  funext id'
  unfold children
  rw [contents_setRefcount]

@[simp]
theorem children_freed : (c.freed id).children = c.children :=
  children_setRefcount

theorem refcount_setRefcount : ((c.setRefcount id n).node id).refcount = n := by
  unfold setRefcount node
  dsimp only
  rw [Function.update_self]

theorem node_setRefcount_of_ne (hne : ipsetNonterminalValue id' ≠ ipsetNonterminalValue id)
    : (c.setRefcount id n).node id' = c.node id' := by
  unfold setRefcount node
  dsimp only
  rw [Function.update_of_ne hne]

theorem Rep.congr {c' : NodeCache} (h : c.Rep id t) (heq : ∀ id, c'.contents id = c.contents id) : c'.Rep id t := by
  induction h with
  | terminal hid => exact .terminal hid
  | nonterminal hid _ _ ihlo ihhi =>
    rw [← heq] at ihlo ihhi ⊢
    exact .nonterminal hid ihlo ihhi

theorem Wf.value_ne (h : c.Wf V R live dying) (hid : id ∈ live ∨ id ∈ dying) (hid' : id' ∈ live ∨ id' ∈ dying)
    (hne : id' ≠ id)
    : ipsetNonterminalValue id' ≠ ipsetNonterminalValue id := by
  have := (h.lt id hid).1
  have := (h.lt id' hid').1
  unfold ipsetNonterminalValue
  omega

theorem Wf.value_not_free (h : c.Wf V R live dying) (hid : id ∈ live ∨ id ∈ dying) {frees : List Nat}
    (hfrees : ∀ i, i ∈ frees ↔ i < c.largestIndex ∧ 2 * i ∉ live ∧ 2 * i ∉ dying)
    : ipsetNonterminalValue id ∉ frees := by
  intro hmem
  obtain ⟨-, hlive, hdying⟩ := (hfrees _).mp hmem
  have heq : 2 * ipsetNonterminalValue id = id := by
    have := (h.lt id hid).1
    unfold ipsetNonterminalValue
    omega
  rw [heq] at hlive hdying
  rcases hid with hid | hid
  . exact hlive hid
  . exact hdying hid

theorem Wf.free_setRefcount (h : c.Wf V R live dying) (hid : id ∈ live ∨ id ∈ dying) (n : Nat)
    : ∃ frees, FreeList (c.setRefcount id n).nodes c.freeList frees ∧ frees.Nodup
        ∧ ∀ i, i ∈ frees ↔ i < c.largestIndex ∧ 2 * i ∉ live ∧ 2 * i ∉ dying := by
  obtain ⟨frees, hlist, hnodup, hfrees⟩ := h.free
  refine ⟨frees, ?_, hnodup, hfrees⟩
  apply hlist.congr
  intro i hi
  have hne : i ≠ ipsetNonterminalValue id := by
    intro heq
    rw [heq] at hi
    exact h.value_not_free hid hfrees hi
  unfold setRefcount
  dsimp only
  rw [Function.update_of_ne hne]

theorem Wf.setRefcount (h : c.Wf V R live dying) (hid : id ∈ live) (hn : n = refs c.children live R' id)
    (hpos : 0 < n) (hroot : ∀ id ∈ R', Valid live id)
    (hrefs : ∀ id' ∈ live, id' ≠ id → refs c.children live R' id' = refs c.children live R id')
    : (c.setRefcount id n).Wf V R' live dying := by
  constructor
  case chunks => exact h.chunks
  case largestIndex => exact h.largestIndex
  case free => exact h.free_setRefcount (.inl hid) n
  case lt => exact h.lt
  case disjoint => exact h.disjoint
  case root => exact hroot
  case child =>
    rw [children_setRefcount]
    exact h.child
  case reduced =>
    intro id' hid'
    rw [contents_setRefcount]
    exact h.reduced id' hid'
  case var_lt =>
    intro id' hid'
    rw [contents_setRefcount]
    exact h.var_lt id' hid'
  case ordered =>
    rw [children_setRefcount]
    intro id' hid' child hchild hmem
    rw [contents_setRefcount, contents_setRefcount]
    exact h.ordered id' hid' child hchild hmem
  case refcount =>
    rw [children_setRefcount]
    intro id' hid'
    by_cases heq : id' = id
    . rw [heq, refcount_setRefcount]
      exact hn
    . rw [node_setRefcount_of_ne (h.value_ne (.inl hid) (.inl hid') heq), hrefs id' hid' heq]
      exact h.refcount id' hid'
  case pos =>
    rw [children_setRefcount]
    intro id' hid'
    by_cases heq : id' = id
    . rw [heq, ← hn]
      exact hpos
    . rw [hrefs id' hid' heq]
      exact h.pos id' hid'
  case hash =>
    intro k id'
    rw [contents_setRefcount]
    exact h.hash k id'

theorem Wf.valid_cons (h : c.Wf V (id ::ₘ R) live dying) : Valid live id :=
  h.root id (Multiset.mem_cons_self id R)

theorem Wf.incref (h : c.Wf V R live dying) (hid : id ∈ live)
    : (c.setRefcount id ((c.node id).refcount + 1)).Wf V (id ::ₘ R) live dying := by
  apply h.setRefcount hid
  case hn => rw [refs_cons_self, h.refcount id hid]
  case hpos => omega
  case hroot =>
    intro id' hid'
    rcases Multiset.mem_cons.mp hid' with rfl | hmem
    . exact .inr hid
    . exact h.root id' hmem
  case hrefs =>
    intro id' _ hne
    rw [refs_cons_of_ne hne]

theorem Wf.cons_terminal (h : c.Wf V R live dying) (hid : id % 2 = 1) : c.Wf V (id ::ₘ R) live dying := by
  have hrefs : ∀ id' ∈ live, refs c.children live (id ::ₘ R) id' = refs c.children live R id' := by
    intro id' hid'
    have := (h.lt id' (.inl hid')).1
    rw [refs_cons_of_ne (by omega)]
  refine { h with root := ?_, refcount := ?_, pos := ?_ }
  . intro id' hid'
    rcases Multiset.mem_cons.mp hid' with rfl | hmem
    . exact .inl hid
    . exact h.root id' hmem
  . intro id' hid'
    rw [hrefs id' hid']
    exact h.refcount id' hid'
  . intro id' hid'
    rw [hrefs id' hid']
    exact h.pos id' hid'

theorem Wf.of_cons_terminal (h : c.Wf V (id ::ₘ R) live dying) (hid : id % 2 = 1) : c.Wf V R live dying := by
  have hrefs : ∀ id' ∈ live, refs c.children live R id' = refs c.children live (id ::ₘ R) id' := by
    intro id' hid'
    have := (h.lt id' (.inl hid')).1
    rw [refs_cons_of_ne (by omega)]
  refine { h with root := ?_, refcount := ?_, pos := ?_ }
  . exact fun id' hid' => h.root id' (Multiset.mem_cons_of_mem hid')
  . intro id' hid'
    rw [hrefs id' hid']
    exact h.refcount id' hid'
  . intro id' hid'
    rw [hrefs id' hid']
    exact h.pos id' hid'

theorem Wf.decref_shared (h : c.Wf V (id ::ₘ R) live dying) (hid : id ∈ live)
    (hshared : 0 < refs c.children live R id)
    : (c.setRefcount id ((c.node id).refcount - 1)).Wf V R live dying := by
  have hcount := h.refcount id hid
  rw [refs_cons_self] at hcount
  apply h.setRefcount hid
  case hn => omega
  case hpos => omega
  case hroot => exact fun id' hid' => h.root id' (Multiset.mem_cons_of_mem hid')
  case hrefs =>
    intro id' _ hne
    rw [refs_cons_of_ne hne]

theorem Wf.die (h : c.Wf V (id ::ₘ R) live dying) (hid : id ∈ live) (hlast : refs c.children live R id = 0)
    : (c.setRefcount id 0).Wf V (c.children id + R) (live.erase id) (insert id dying) := by
  have hunreferenced : id ∉ R ∧ ∀ j ∈ live, id ∉ c.children j := by
    have hnone : ¬ 0 < refs c.children live R id := by omega
    rw [refs_pos_iff] at hnone
    exact ⟨fun hmem => hnone (.inl hmem), fun j hj hmem => hnone (.inr ⟨j, hj, hmem⟩)⟩
  have hvalid : ∀ id', Valid live id' → id' ≠ id → Valid (live.erase id) id' := by
    rintro id' (hodd | hmem) hne
    . exact .inl hodd
    . exact .inr (Finset.mem_erase.mpr ⟨hne, hmem⟩)
  have hrefs : ∀ id' ∈ live.erase id, refs c.children (live.erase id) (c.children id + R) id'
      = refs c.children live (id ::ₘ R) id' := by
    intro id' hid'
    rw [refs_erase hid, refs_cons_of_ne (Finset.ne_of_mem_erase hid')]
  constructor
  case chunks => exact h.chunks
  case largestIndex => exact h.largestIndex
  case free =>
    obtain ⟨frees, hlist, hnodup, hfrees⟩ := h.free_setRefcount (.inl hid) 0
    refine ⟨frees, hlist, hnodup, fun i => ?_⟩
    rw [hfrees, Finset.mem_erase, Finset.mem_insert]
    by_cases heq : 2 * i = id
    . simp [heq, hid]
    . simp only [heq, ne_eq, not_false_eq_true, true_and, false_or]
      rfl
  case lt =>
    intro id' hid'
    rw [Finset.mem_erase, Finset.mem_insert] at hid'
    rcases hid' with ⟨-, hmem⟩ | rfl | hmem
    . exact h.lt id' (.inl hmem)
    . exact h.lt id' (.inl hid)
    . exact h.lt id' (.inr hmem)
  case disjoint =>
    intro id' hid' hmem
    obtain ⟨hne, hlive⟩ := Finset.mem_erase.mp hid'
    rcases Finset.mem_insert.mp hmem with heq | hdying
    . exact hne heq
    . exact h.disjoint id' hlive hdying
  case root =>
    intro id' hid'
    rcases Multiset.mem_add.mp hid' with hchild | hroot
    . apply hvalid id' (h.child id hid id' hchild)
      rintro rfl
      exact hunreferenced.2 id' hid hchild
    . apply hvalid id' (h.root id' (Multiset.mem_cons_of_mem hroot))
      rintro rfl
      exact hunreferenced.1 hroot
  case child =>
    rw [children_setRefcount]
    intro id' hid' child hchild
    obtain ⟨-, hlive⟩ := Finset.mem_erase.mp hid'
    apply hvalid child (h.child id' hlive child hchild)
    rintro rfl
    exact hunreferenced.2 id' hlive hchild
  case reduced =>
    intro id' hid'
    rw [contents_setRefcount]
    exact h.reduced id' (Finset.mem_of_mem_erase hid')
  case var_lt =>
    intro id' hid'
    rw [contents_setRefcount]
    exact h.var_lt id' (Finset.mem_of_mem_erase hid')
  case ordered =>
    rw [children_setRefcount]
    intro id' hid' child hchild hmem
    rw [contents_setRefcount, contents_setRefcount]
    exact h.ordered id' (Finset.mem_of_mem_erase hid') child hchild (Finset.mem_of_mem_erase hmem)
  case refcount =>
    rw [children_setRefcount]
    intro id' hid'
    obtain ⟨hne, hlive⟩ := Finset.mem_erase.mp hid'
    rw [node_setRefcount_of_ne (h.value_ne (.inl hid) (.inl hlive) hne), hrefs id' hid']
    exact h.refcount id' hlive
  case pos =>
    rw [children_setRefcount]
    intro id' hid'
    rw [hrefs id' hid']
    exact h.pos id' (Finset.mem_of_mem_erase hid')
  case hash =>
    intro k id'
    rw [contents_setRefcount, Finset.mem_erase, Finset.mem_insert]
    refine (h.hash k id').trans (and_congr_left' ?_)
    by_cases heq : id' = id
    . simp [heq, hid]
    . simp [heq]

theorem Wf.free_freed (h : c.Wf V R live (insert id dying)) (hlive : id ∉ live) (hid : id ∉ dying)
    : ∃ frees, FreeList (c.freed id).nodes (c.freed id).freeList frees ∧ frees.Nodup
        ∧ ∀ i, i ∈ frees ↔ i < (c.freed id).largestIndex ∧ 2 * i ∉ live ∧ 2 * i ∉ dying := by
  have hmem : id ∈ live ∨ id ∈ insert id dying := .inr (Finset.mem_insert_self id dying)
  have heven := (h.lt id hmem).1
  have hindex := (h.lt id hmem).2
  obtain ⟨frees, hlist, hnodup, hfrees⟩ := h.free_setRefcount hmem c.freeList
  have hnot := h.value_not_free hmem hfrees
  refine ⟨ipsetNonterminalValue id :: frees, ⟨rfl, ?_, ?_⟩, List.nodup_cons.mpr ⟨hnot, hnodup⟩, ?_⟩
  . have := h.largestIndex
    unfold IPSET_NULL_INDEX ipsetNonterminalValue
    omega
  . change FreeList _ ((c.setRefcount id c.freeList).node id).refcount frees
    rw [refcount_setRefcount]
    exact hlist
  . intro i
    rw [List.mem_cons, hfrees, Finset.mem_insert]
    by_cases heq : i = ipsetNonterminalValue id
    . have hid_eq : 2 * i = id := by
        rw [heq]
        unfold ipsetNonterminalValue
        omega
      have hlt : i < c.largestIndex := by omega
      simp only [heq, true_or, true_iff]
      rw [← heq, hid_eq]
      exact ⟨hlt, hlive, hid⟩
    . have hne : 2 * i ≠ id := by
        intro hid_eq
        apply heq
        rw [← hid_eq]
        unfold ipsetNonterminalValue
        omega
      simp only [heq, false_or, hne]
      rfl

theorem Wf.hash_freed (h : c.Wf V R live (insert id dying)) (hlive : id ∉ live) (hid : id ∉ dying) (k : Contents)
    (id' : Nat)
    : (c.freed id).nodeCache k = some id' ↔ (id' ∈ live ∨ id' ∈ dying) ∧ (c.freed id).contents id' = k := by
  have hmem : id ∈ live ∨ id ∈ insert id dying := .inr (Finset.mem_insert_self id dying)
  rw [contents_freed]
  unfold freed
  dsimp only
  by_cases hk : k = c.contents id
  . rw [hk, Function.update_self]
    constructor
    . exact nofun
    . rintro ⟨hid', heq⟩
      -- No other node has the same contents.
      have hkey := (h.hash _ id).mpr ⟨hmem, rfl⟩
      have hkey' := (h.hash _ id').mpr ⟨hid'.imp_right Finset.mem_insert_of_mem, heq⟩
      rw [hkey, Option.some.injEq] at hkey'
      subst hkey'
      rcases hid' with hid' | hid'
      . exact absurd hid' hlive
      . exact absurd hid' hid
  . rw [Function.update_of_ne hk, h.hash k id', Finset.mem_insert]
    have hne : c.contents id' = k → id' ≠ id := by
      rintro hcontents rfl
      exact hk hcontents.symm
    constructor
    . rintro ⟨hlive' | heq | hdying, hcontents⟩
      . exact ⟨.inl hlive', hcontents⟩
      . exact absurd heq (hne hcontents)
      . exact ⟨.inr hdying, hcontents⟩
    . rintro ⟨hlive' | hdying, hcontents⟩
      . exact ⟨.inl hlive', hcontents⟩
      . exact ⟨.inr (.inr hdying), hcontents⟩

theorem Wf.bury (h : c.Wf V R live (insert id dying)) (hid : id ∉ dying) : (c.freed id).Wf V R live dying := by
  have hmem : id ∈ live ∨ id ∈ insert id dying := .inr (Finset.mem_insert_self id dying)
  have hlive : id ∉ live := fun hlive => h.disjoint id hlive (Finset.mem_insert_self id dying)
  constructor
  case chunks => exact h.chunks
  case largestIndex => exact h.largestIndex
  case free => exact h.free_freed hlive hid
  case lt => exact fun id' hid' => h.lt id' (hid'.imp_right Finset.mem_insert_of_mem)
  case disjoint => exact fun id' hid' hdying => h.disjoint id' hid' (Finset.mem_insert_of_mem hdying)
  case root => exact h.root
  case child =>
    rw [children_freed]
    exact h.child
  case reduced =>
    intro id' hid'
    rw [contents_freed]
    exact h.reduced id' hid'
  case var_lt =>
    intro id' hid'
    rw [contents_freed]
    exact h.var_lt id' hid'
  case ordered =>
    rw [children_freed]
    intro id' hid' child hchild hmem
    rw [contents_freed, contents_freed]
    exact h.ordered id' hid' child hchild hmem
  case refcount =>
    rw [children_freed]
    intro id' hid'
    have hne : id' ≠ id := by
      rintro rfl
      exact hlive hid'
    change ((c.setRefcount id c.freeList).node id').refcount = _
    rw [node_setRefcount_of_ne (h.value_ne hmem (.inl hid') hne)]
    exact h.refcount id' hid'
  case pos =>
    rw [children_freed]
    exact h.pos
  case hash => exact h.hash_freed hlive hid

end

end NodeCache

section

variable {c c' : NodeCache} {V : Nat} {R : Multiset Nat} {live dying : Finset Nat} {id : Nat} {t : Bdd Nat}

theorem wp_derefIndex {index : Nat} (h : index / IPSET_BDD_NODE_CACHE_SIZE < c.chunks)
    {Q : Node → NodeCache → Prop} {F : Fault → NodeCache → Prop}
    : wp (derefIndex index) Q F c ↔ Q (c.nodes index) c := by
  rw [derefIndex, wp_bind, wp_get, if_pos h, wp_pure]

theorem wp_assignIndex {index : Nat} (h : index / IPSET_BDD_NODE_CACHE_SIZE < c.chunks) {f : Node → Node}
    {Q : Unit → NodeCache → Prop} {F : Fault → NodeCache → Prop}
    : wp (assignIndex index f) Q F c
        ↔ Q () { c with nodes := Function.update c.nodes index (f (c.nodes index)) } := by
  rw [assignIndex, wp_bind, wp_derefIndex h, wp_modify]

theorem wp_deref (h : c.Wf V R live dying) (hid : id ∈ live) {Q : Node → NodeCache → Prop}
    {F : Fault → NodeCache → Prop}
    : wp (deref id) Q F c ↔ Q (c.node id) c :=
  wp_derefIndex (h.index_lt (.inl hid))

theorem wp_setRefcount (h : c.Wf V R live dying) (hid : id ∈ live ∨ id ∈ dying) {f : Node → Node} {n : Nat}
    (hf : f (c.node id) = { c.node id with refcount := n }) {Q : Unit → NodeCache → Prop}
    {F : Fault → NodeCache → Prop}
    : wp (assignIndex (ipsetNonterminalValue id) f) Q F c ↔ Q () (c.setRefcount id n) := by
  rw [wp_assignIndex (h.index_lt hid), setRefcount, ← hf]
  rfl

theorem wp_ipsetNodeIncref (h : c.Wf V R live dying) (hvalid : Valid live id)
    : wp (ipsetNodeIncref id)
        (fun id' c' => id' = id ∧ c'.Wf V (id ::ₘ R) live dying ∧ (∀ id, c'.contents id = c.contents id)
          ∧ c'.largestIndex = c.largestIndex)
        (fun _ _ => False) c := by
  rw [ipsetNodeIncref]
  rcases hvalid with hodd | hid
  . rw [if_neg (by unfold ipsetNodeGetType IPSET_NONTERMINAL_NODE; omega), wp_pure]
    exact ⟨rfl, h.cons_terminal hodd, fun _ => rfl, rfl⟩
  . rw [if_pos (h.ipsetNodeGetType_of_live hid), wp_bind,
      wp_setRefcount h (.inl hid) (n := (c.node id).refcount + 1) rfl, wp_pure]
    exact ⟨rfl, h.incref hid, fun _ => contents_setRefcount, rfl⟩

theorem decrement_of_pos {n : Nat} (h : 0 < n) : decrement n = n - 1 := by
  rw [decrement, if_neg (by omega)]

theorem wp_ipsetNodeDecref_shared (h : c.Wf V (id ::ₘ R) live dying)
    (hshared : id ∈ live → 0 < refs c.children live R id) (fuel : Nat)
    : wp (ipsetNodeDecref (fuel + 1) id)
        (fun _ c' => c'.Wf V R live dying ∧ (∀ id, c'.contents id = c.contents id)
          ∧ c'.largestIndex = c.largestIndex)
        (fun _ _ => False) c := by
  rw [ipsetNodeDecref]
  rcases h.valid_cons with hodd | hid
  . rw [if_neg (by unfold ipsetNodeGetType IPSET_NONTERMINAL_NODE; omega), wp_pure]
    exact ⟨h.of_cons_terminal hodd, fun _ => rfl, rfl⟩
  . have hpos := hshared hid
    have hcount := h.refcount id hid
    rw [refs_cons_self] at hcount
    have hdec : decrement (c.node id).refcount = (c.node id).refcount - 1 := decrement_of_pos (by omega)
    rw [if_pos (h.ipsetNodeGetType_of_live hid), wp_bind, wp_deref h hid, wp_bind,
      wp_setRefcount h (.inl hid) (n := (c.node id).refcount - 1) (by dsimp only; rw [hdec]), hdec,
      if_neg (by omega), wp_pure]
    exact ⟨h.decref_shared hid hpos, fun _ => contents_setRefcount, rfl⟩

/--
A reference is released, and everything that is no longer referred to is freed. The recursion is on the diagram,
and while it runs the nodes above are `dying`.
-/
theorem wp_ipsetNodeDecref (h : c.Wf V (id ::ₘ R) live dying) (ht : c.Rep id t) {fuel : Nat} (hfuel : t.depth < fuel)
    : wp (ipsetNodeDecref fuel id)
        (fun _ c' => ∃ live' ⊆ live, c'.Wf V R live' dying ∧ (∀ id, c'.contents id = c.contents id)
          ∧ c'.largestIndex = c.largestIndex)
        (fun _ _ => False) c := by
  induction t generalizing c R live dying id fuel with
  | leaf a =>
    cases ht with
    | terminal hodd =>
      obtain ⟨fuel, rfl⟩ : ∃ n, fuel = n + 1 := ⟨fuel - 1, by omega⟩
      rw [ipsetNodeDecref, if_neg (by unfold ipsetNodeGetType IPSET_NONTERMINAL_NODE; omega),
        wp_pure]
      exact ⟨live, Finset.Subset.refl _, h.of_cons_terminal hodd, fun _ => rfl, rfl⟩
  | node x lo hi ihlo ihhi =>
    obtain ⟨fuel, rfl⟩ : ∃ n, fuel = n + 1 := ⟨fuel - 1, by omega⟩
    generalize hu : Bdd.node x lo hi = u at ht
    cases ht with
    | terminal => contradiction
    | nonterminal heven hlo hhi =>
    injection hu with _ hlo_eq hhi_eq
    subst hlo_eq
    subst hhi_eq
    rw [Bdd.depth] at hfuel
    have hid := h.valid_cons.mem_live heven
    have hcount := h.refcount id hid
    rw [refs_cons_self] at hcount
    by_cases hlast : refs c.children live R id = 0
    . have hone : (c.node id).refcount = 1 := by omega
      rw [ipsetNodeDecref, if_pos (h.ipsetNodeGetType_of_live hid), wp_bind, wp_deref h hid, wp_bind,
        wp_setRefcount h (.inl hid) (n := 0) (by dsimp only; rw [hone]; rfl), hone,
        if_pos (by decide), wp_bind]
      have hdying : id ∉ dying := h.disjoint id hid
      have hdie := h.die hid hlast
      unfold children at hdie
      rw [Multiset.insert_eq_cons, Multiset.cons_add, Multiset.singleton_add] at hdie
      -- The references to the children are released one after the other.
      apply wp_mono (ihlo hdie (hlo.congr fun _ => contents_setRefcount) (by omega)) _ fun _ _ hF => hF
      rintro _ c₁ ⟨live₁, hsub₁, hwf₁, hsame₁, hlargest₁⟩
      rw [wp_bind]
      have hsame₁' : ∀ id, c₁.contents id = c.contents id := fun id => by rw [hsame₁, contents_setRefcount]
      apply wp_mono (ihhi hwf₁ (hhi.congr hsame₁') (by omega)) _ fun _ _ hF => hF
      rintro _ c₂ ⟨live₂, hsub₂, hwf₂, hsame₂, hlargest₂⟩
      have hsame : ∀ id, c₂.contents id = c.contents id := fun id => by rw [hsame₂, hsame₁']
      have hlt : ipsetNonterminalValue id / IPSET_BDD_NODE_CACHE_SIZE < c₂.chunks :=
        hwf₂.index_lt (.inr (Finset.mem_insert_self id dying))
      rw [wp_bind, hashDelete, wp_modify, wp_bind, wp_get, wp_bind]
      refine (wp_assignIndex ?_).mpr ?_
      . exact hlt
      rw [wp_modify]
      have hfreed := hwf₂.bury hdying
      unfold freed at hfreed
      rw [hsame] at hfreed
      refine ⟨live₂, hsub₂.trans (hsub₁.trans (Finset.erase_subset id live)), hfreed, fun id' => ?_, ?_⟩
      . rw [← hsame]
        exact @contents_setRefcount c₂ c₂.freeList id id'
      . exact hlargest₂.trans hlargest₁
    . apply wp_mono (wp_ipsetNodeDecref_shared h (fun _ => Nat.pos_of_ne_zero hlast) fuel) _ fun _ _ hF => hF
      rintro _ c' ⟨hwf, hsame, hlargest⟩
      exact ⟨live, Finset.Subset.refl _, hwf, hsame, hlargest⟩

end

end Xsocks.IpSet
