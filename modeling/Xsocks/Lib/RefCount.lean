import Mathlib.Algebra.BigOperators.Group.Finset.Basic
import Mathlib.Data.Multiset.Count

/-!
This module contains the references between the nodes of a heap: what is referred to by a multiset of roots
and by the nodes that are alive, and what a reference count that agrees with it tells about reachability.
-/

namespace RefCount

variable {ι : Type} [DecidableEq ι] {children children' : ι → Multiset ι} {live : Finset ι} {R : Multiset ι}
  {i j : ι}

def refs (children : ι → Multiset ι) (live : Finset ι) (R : Multiset ι) (i : ι) : Nat :=
  R.count i + ∑ j ∈ live, (children j).count i

theorem refs_cons_self : refs children live (i ::ₘ R) i = refs children live R i + 1 := by
  rw [refs, refs, Multiset.count_cons_self]
  omega

theorem refs_cons_of_ne {a : ι} (h : i ≠ a) : refs children live (a ::ₘ R) i = refs children live R i := by
  rw [refs, refs, Multiset.count_cons_of_ne h]

theorem refs_erase (h : j ∈ live) : refs children (live.erase j) (children j + R) i = refs children live R i := by
  rw [refs, refs, Multiset.count_add, ← Finset.add_sum_erase live _ h]
  omega

theorem refs_insert (h : j ∉ live) : refs children (insert j live) R i = refs children live (children j + R) i := by
  rw [refs, refs, Multiset.count_add, Finset.sum_insert h]
  omega

theorem refs_congr (h : ∀ j ∈ live, children j = children' j)
    : refs children live R i = refs children' live R i := by
  rw [refs, refs, Finset.sum_congr rfl fun j hj => by rw [h j hj]]

theorem count_le_refs : R.count i ≤ refs children live R i := by
  rw [refs]
  omega

theorem refs_pos_of_mem_children (hj : j ∈ live) (hi : i ∈ children j) : 0 < refs children live R i := by
  rw [refs, ← Finset.add_sum_erase live _ hj]
  have hpos : 0 < (children j).count i := Multiset.count_pos.mpr hi
  omega

theorem refs_pos_iff : 0 < refs children live R i ↔ i ∈ R ∨ ∃ j ∈ live, i ∈ children j := by
  constructor
  . intro hpos
    by_cases hroot : i ∈ R
    . exact .inl hroot
    . rw [refs, Multiset.count_eq_zero.mpr hroot, Nat.zero_add] at hpos
      obtain ⟨j, hj, hne⟩ := Finset.exists_ne_zero_of_sum_ne_zero (Nat.pos_iff_ne_zero.mp hpos)
      exact .inr ⟨j, hj, Multiset.count_ne_zero.mp hne⟩
  . rintro (hroot | ⟨j, hj, hi⟩)
    . exact Nat.lt_of_lt_of_le (Multiset.count_pos.mpr hroot) count_le_refs
    . exact refs_pos_of_mem_children hj hi

inductive Reachable (children : ι → Multiset ι) (live : Finset ι) (R : Multiset ι) : ι → Prop where
  | root {i : ι} (h : i ∈ R) : Reachable children live R i
  | child {i j : ι} (h : Reachable children live R j) (hj : j ∈ live) (hi : i ∈ children j)
    : Reachable children live R i

/-- Without cycles, nodes that are all referred to are all reachable: there is no garbage. -/
theorem reachable_of_refs_pos (rank : ι → Nat)
    (hrank : ∀ j ∈ live, ∀ i ∈ live, i ∈ children j → rank j < rank i)
    (hpos : ∀ i ∈ live, 0 < refs children live R i) (hi : i ∈ live)
    : Reachable children live R i := by
  induction hr : rank i using Nat.strongRecOn generalizing i with
  | ind r ih =>
    subst hr
    rcases refs_pos_iff.mp (hpos i hi) with hroot | ⟨j, hj, hchild⟩
    . exact .root hroot
    . exact .child (ih _ (hrank j hj i hi hchild) hj rfl) hj hchild

omit [DecidableEq ι] in
theorem Reachable.exists_root (h : Reachable children live R i) : ∃ r, r ∈ R := by
  induction h with
  | root h => exact ⟨_, h⟩
  | child _ _ _ ih => exact ih

theorem eq_empty_of_refs_pos (rank : ι → Nat)
    (hrank : ∀ j ∈ live, ∀ i ∈ live, i ∈ children j → rank j < rank i)
    (hpos : ∀ i ∈ live, 0 < refs children live 0 i)
    : live = ∅ := by
  rw [Finset.eq_empty_iff_forall_notMem]
  intro i hi
  obtain ⟨r, hr⟩ := (reachable_of_refs_pos rank hrank hpos hi).exists_root
  exact Multiset.notMem_zero r hr

end RefCount
