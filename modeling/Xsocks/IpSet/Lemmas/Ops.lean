import Xsocks.IpSet.Lemmas.Set

/-!
This module contains runs of the operations on a set of IP addresses. Over any run the code keeps the diagram
of the set of addresses that the operations describe.
-/

namespace Xsocks.IpSet

open Wp NodeCache

inductive Op where
  | add (addr : CorkIp)
  | addNetwork (addr : CorkIp) (cidrPrefix : Nat)
  | remove (addr : CorkIp)
  | removeNetwork (addr : CorkIp) (cidrPrefix : Nat)

namespace Op

def run (fuel : Nat) : Op → SetM Bool
  | add addr => ipsetIpAdd fuel addr
  | addNetwork addr cidrPrefix => ipsetIpAddNetwork fuel addr cidrPrefix
  | remove addr => ipsetIpRemove fuel addr
  | removeNetwork addr cidrPrefix => ipsetIpRemoveNetwork fuel addr cidrPrefix

def InRange : Op → Prop
  | add _ => True
  | addNetwork addr cidrPrefix => cidrPrefix ≤ addr.bits
  | remove _ => True
  | removeNetwork addr cidrPrefix => cidrPrefix ≤ addr.bits

def apply (S : Set CorkIp) : Op → Set CorkIp
  | add addr => S ∪ {addr}
  | addNetwork addr cidrPrefix => if cidrPrefix ≤ addr.bits then S ∪ addr.network cidrPrefix else S
  | remove addr => S \ {addr}
  | removeNetwork addr cidrPrefix => if cidrPrefix ≤ addr.bits then S \ addr.network cidrPrefix else S

end Op

def run (fuel : Nat) : List Op → SetM (List Bool)
  | [] => return []
  | op :: ops => do
    let result ← op.run fuel
    let results ← run fuel ops
    return result :: results

def applyAll (S : Set CorkIp) (ops : List Op) : Set CorkIp :=
  ops.foldl Op.apply S

/-- An operation returns true if it is in range and the set has not changed. -/
def Results : Set CorkIp → List Op → List Bool → Prop
  | _, [], results => results = []
  | S, op :: ops, results => ∃ result rest, results = result :: rest
    ∧ (result = true ↔ op.InRange ∧ op.apply S = S) ∧ Results (op.apply S) ops rest

structure Represents (set : IpSet) (live : Finset Nat) (S : Set CorkIp) : Prop where
  wf : set.cache.Wf 129 {set.setBdd} live ∅
  rep : ∃ t, set.cache.Rep set.setBdd t ∧ Denotes t S

section

variable {set : IpSet} {live : Finset Nat} {S : Set CorkIp} {a : CorkIp} {fuel : Nat}

theorem wp_onCache {α : Type} {x : Cache α} {Q : α → IpSet → Prop} {E : Fault → IpSet → Prop}
    : wp (onCache x) Q E set
      ↔ wp x (fun r c => Q r { set with cache := c }) (fun e c => E e { set with cache := c }) set.cache := by
  unfold wp onCache
  cases x set.cache <;> rfl

theorem represents_ipsetInit : Represents ipsetInit ∅ ∅ := by
  constructor
  case wf =>
    constructor
    case chunks => exact Nat.zero_le _
    case largestIndex => exact Nat.zero_le _
    case free => exact ⟨[], rfl, List.nodup_nil, fun i => by simp [ipsetInit, ipsetNodeCacheNew]⟩
    case lt => simp
    case disjoint => simp
    case root =>
      intro id hid
      rw [Multiset.mem_singleton] at hid
      rw [hid]
      exact .inl rfl
    case child => simp
    case reduced => simp
    case var_lt => simp
    case ordered => simp
    case refcount => simp
    case pos => simp
    case hash => simp [ipsetInit, ipsetNodeCacheNew]
  case rep => exact ⟨_, .terminal rfl, denotes_empty⟩

theorem Represents.valid (h : Represents set live S) : Valid live set.setBdd :=
  h.wf.root _ (Multiset.mem_singleton_self _)

theorem wp_ipsetContainsIp (h : Represents set live S) (hfuel : 130 ≤ fuel)
    : wp (ipsetContainsIp fuel a) (fun result set' => (result = true ↔ a ∈ S) ∧ set' = set) (fun _ _ => False)
        set := by
  have hcontains : ipsetContainsIp fuel a = ipsetContainsIpvX a.version fuel a.ip := by cases a <;> rfl
  obtain ⟨t, ht, hS⟩ := h.rep
  have hordered := h.wf.ordered_of_rep h.valid ht
  have hdepth := hordered.depth_le
  rw [hcontains, ipsetContainsIpvX, wp_bind, wp_get, wp_bind, wp_onCache]
  have hassignment : ∀ x, t.Asks a.values x → ipsetIpvXAssignment a.version a.ip x = some (a.values x) :=
    fun x hx => CorkIp.assignment_eq (hS.le_of_asks hordered (h.wf.reduced_of_rep h.valid ht) hx)
  apply wp_mono (wp_ipsetNodeEvaluate h.wf h.valid ht hassignment (by omega)) _ fun _ _ hF => hF
  rintro value _ ⟨rfl, rfl⟩
  rw [wp_pure]
  refine ⟨?_, rfl⟩
  obtain ⟨hinside, houtside⟩ := hS a.values a agrees_values
  by_cases hmem : a ∈ S
  . simp [hinside hmem, hmem]
  . simp [houtside hmem, hmem]

theorem wp_ipsetIpvXInsert (h : Represents set live S) {cidrPrefix value : Nat} (hle : cidrPrefix ≤ a.bits)
    (hvalue : value ≤ 1) (hlargest : set.cache.largestIndex + 129 ≤ 2 ^ 31) (hfuel : 130 ≤ fuel)
    : wp (ipsetIpvXInsert a.version fuel a.ip (cidrPrefix + 1) value)
        (fun result set' => (result = true ↔ inserted S (a.network cidrPrefix) value = S)
          ∧ (∃ live', Represents set' live' (inserted S (a.network cidrPrefix) value))
          ∧ set'.cache.largestIndex ≤ set.cache.largestIndex + 129)
        (fun _ _ => False) set := by
  obtain ⟨t, ht, hS⟩ := h.rep
  have hbits := CorkIp.bits_le (a := a)
  have hordered := h.wf.ordered_of_rep h.valid ht
  have hassignment : ∀ x, x < cidrPrefix + 1 → ipsetIpvXAssignment a.version a.ip x = some (a.values x) :=
    fun x hx => CorkIp.assignment_eq (by omega)
  rw [ipsetIpvXInsert, wp_bind, wp_get, wp_bind, wp_onCache]
  apply wp_mono (wp_ipsetNodeInsert h.wf h.valid ht (by omega) hassignment (by omega) (by omega) (by omega)) _
    fun _ _ hF => hF
  rintro newBdd c₁ ⟨⟨live₁, hsub, hwf₁⟩, hcontents, hlargest₁, u, hu, hinserted⟩
  have ht₁ := ht.of_contents h.wf h.valid hcontents
  have hvalid_new : Valid live₁ newBdd := hwf₁.root _ (Multiset.mem_cons_self _ _)
  have hS' := hS.inserted hle hvalue hinserted
  have heq : newBdd = set.setBdd ↔ inserted S (a.network cidrPrefix) value = S := by
    rw [← hS'.eq_iff hS (hwf₁.ordered_of_rep hvalid_new hu) hordered (hwf₁.reduced_of_rep hvalid_new hu)
      (h.wf.reduced_of_rep h.valid ht)]
    constructor
    . rintro rfl
      exact hu.functional ht₁
    . rintro rfl
      exact hwf₁.rep_inj hvalid_new (h.valid.mono hsub) hu ht₁
  have hroots : newBdd ::ₘ {set.setBdd} = set.setBdd ::ₘ {newBdd} := Multiset.cons_swap _ _ 0
  rw [hroots] at hwf₁
  have hdepth := hordered.depth_le
  rw [wp_bind, wp_onCache]
  apply wp_mono (wp_ipsetNodeDecref hwf₁ ht₁ (by omega)) _ fun _ _ hF => hF
  rintro _ c₂ ⟨live₂, -, hwf₂, hsame, hlargest₂⟩
  rw [wp_bind, wp_modify, wp_pure, decide_eq_true_iff]
  refine ⟨heq, ⟨live₂, hwf₂, u, hu.congr hsame, hS'⟩, ?_⟩
  dsimp only
  omega

theorem wp_network (h : Represents set live S) (cidrPrefix : Nat) {value : Nat} (hvalue : value ≤ 1)
    (hlargest : set.cache.largestIndex + 129 ≤ 2 ^ 31) (hfuel : 130 ≤ fuel)
    : wp (if cidrPrefix > IP_BIT_SIZE a.version then return false
          else ipsetIpvXInsert a.version fuel a.ip (cidrPrefix + 1) value)
        (fun result set' =>
          (result = true ↔ cidrPrefix ≤ a.bits
            ∧ (if cidrPrefix ≤ a.bits then inserted S (a.network cidrPrefix) value else S) = S)
          ∧ (∃ live', Represents set' live'
            (if cidrPrefix ≤ a.bits then inserted S (a.network cidrPrefix) value else S))
          ∧ set'.cache.largestIndex ≤ set.cache.largestIndex + 129)
        (fun _ _ => False) set := by
  change wp (if a.bits < cidrPrefix then _ else _) _ _ _
  by_cases hle : cidrPrefix ≤ a.bits
  . have hinsert := wp_ipsetIpvXInsert h hle hvalue hlargest hfuel
    rw [if_neg (Nat.not_lt_of_le hle)]
    simpa only [hle, if_true, true_and] using hinsert
  . rw [if_pos (Nat.lt_of_not_le hle), wp_pure]
    simp only [hle, if_false, false_and]
    exact ⟨by simp, ⟨live, h⟩, Nat.le_add_right _ _⟩

theorem wp_op_run (h : Represents set live S) (op : Op) (hlargest : set.cache.largestIndex + 129 ≤ 2 ^ 31)
    (hfuel : 130 ≤ fuel)
    : wp (op.run fuel)
        (fun result set' => (result = true ↔ op.InRange ∧ op.apply S = S)
          ∧ (∃ live', Represents set' live' (op.apply S))
          ∧ set'.cache.largestIndex ≤ set.cache.largestIndex + 129)
        (fun _ _ => False) set := by
  have hadd : ∀ N, inserted S N 1 = S ∪ N := fun N => if_neg Nat.one_ne_zero
  have hremove : ∀ N, inserted S N 0 = S \ N := fun N => if_pos rfl
  cases op with
  | add a =>
    have hinsert := wp_ipsetIpvXInsert h (Nat.le_refl a.bits) (Nat.le_refl 1) hlargest hfuel
    rw [CorkIp.network_bits, hadd] at hinsert
    have hrun : (Op.add a).run fuel = ipsetIpvXInsert a.version fuel a.ip (a.bits + 1) 1 := by cases a <;> rfl
    rw [hrun, Op.apply, Op.InRange]
    simpa only [true_and] using hinsert
  | addNetwork a cidrPrefix =>
    have hnetwork := wp_network (a := a) h cidrPrefix (Nat.le_refl 1) hlargest hfuel
    rw [hadd] at hnetwork
    have hrun : (Op.addNetwork a cidrPrefix).run fuel = ipsetIpvXAddNetwork a.version fuel a.ip cidrPrefix := by
      cases a <;> rfl
    rw [hrun]
    exact hnetwork
  | remove a =>
    have hinsert := wp_ipsetIpvXInsert h (Nat.le_refl a.bits) (Nat.zero_le 1) hlargest hfuel
    rw [CorkIp.network_bits, hremove] at hinsert
    have hrun : (Op.remove a).run fuel = ipsetIpvXInsert a.version fuel a.ip (a.bits + 1) 0 := by cases a <;> rfl
    rw [hrun, Op.apply, Op.InRange]
    simpa only [true_and] using hinsert
  | removeNetwork a cidrPrefix =>
    have hnetwork := wp_network (a := a) h cidrPrefix (Nat.zero_le 1) hlargest hfuel
    rw [hremove] at hnetwork
    have hrun
        : (Op.removeNetwork a cidrPrefix).run fuel = ipsetIpvXRemoveNetwork a.version fuel a.ip cidrPrefix := by
      cases a <;> rfl
    rw [hrun]
    exact hnetwork

theorem wp_run (h : Represents set live S) (ops : List Op)
    (hlargest : set.cache.largestIndex + 129 * ops.length ≤ 2 ^ 31) (hfuel : 130 ≤ fuel)
    : wp (run fuel ops)
        (fun results set' => Results S ops results ∧ (∃ live', Represents set' live' (applyAll S ops))
          ∧ set'.cache.largestIndex ≤ set.cache.largestIndex + 129 * ops.length)
        (fun _ _ => False) set := by
  induction ops generalizing set live S with
  | nil =>
    rw [run, wp_pure]
    exact ⟨rfl, ⟨live, h⟩, Nat.le_refl _⟩
  | cons op ops ih =>
    rw [List.length_cons, Nat.mul_succ] at hlargest
    rw [run, wp_bind]
    apply wp_mono (wp_op_run h op (by omega) hfuel) _ fun _ _ hF => hF
    rintro result set₁ ⟨hresult, ⟨live₁, h₁⟩, hlargest₁⟩
    rw [wp_bind]
    apply wp_mono (ih h₁ (by omega)) _ fun _ _ hF => hF
    rintro results set₂ ⟨hresults, hset₂, hlargest₂⟩
    rw [wp_pure, List.length_cons, Nat.mul_succ]
    exact ⟨⟨result, results, rfl, hresult, hresults⟩, hset₂, by omega⟩

theorem wp_run_ipsetInit {ops : List Op} (hops : 129 * ops.length ≤ 2 ^ 31) (hfuel : 130 ≤ fuel)
    : wp (run fuel ops) (fun results set => Results ∅ ops results ∧ ∃ live, Represents set live (applyAll ∅ ops))
        (fun _ _ => False) ipsetInit := by
  have hlargest : ipsetInit.cache.largestIndex + 129 * ops.length ≤ 2 ^ 31 := by
    rw [show ipsetInit.cache.largestIndex = 0 from rfl, Nat.zero_add]
    exact hops
  apply wp_mono (wp_run represents_ipsetInit ops hlargest hfuel) _ fun _ _ hF => hF
  rintro results set ⟨hresults, hset, -⟩
  exact ⟨hresults, hset⟩

end

end Xsocks.IpSet
