import Mathlib.Data.List.Count
import Mathlib.Data.List.Nodup

/-!
This module contains the accounts of a resource: handles are acquired and released, and a history is in
order if only free handles are acquired and only held ones are released.
-/

namespace Ledger

variable {η : Type} [DecidableEq η]

inductive Op (η : Type) where
  | acquire (h : η)
  | release (h : η)
  deriving DecidableEq

/-- The handles held after one operation, `none` if it must not take place. -/
def step (hs : List η) : Op η → Option (List η)
  | .acquire h => if h ∈ hs then none else some (h :: hs)
  | .release h => if h ∈ hs then some (hs.erase h) else none

def held (ops : List (Op η)) : Option (List η) :=
  ops.foldlM step []

theorem held_append_singleton {ops : List (Op η)} {hs : List η} (h : held ops = some hs) (op : Op η)
    : held (ops ++ [op]) = step hs op := by
  unfold held at *
  rw [List.foldlM_append, h]
  simp

theorem held_acquire {ops : List (Op η)} {hs : List η} (h : held ops = some hs) {a : η} (ha : a ∉ hs)
    : held (ops ++ [.acquire a]) = some (a :: hs) := by
  rw [held_append_singleton h, step, if_neg ha]

theorem held_release {ops : List (Op η)} {hs : List η} {a : η} (h : held ops = some (a :: hs))
    : held (ops ++ [.release a]) = some hs := by
  rw [held_append_singleton h, step, if_pos List.mem_cons_self, List.erase_cons_head]

theorem count_step {op : Op η} {hs hs' : List η} (h : step hs op = some hs') (a : η)
    : [op].count (.acquire a) + hs.count a = [op].count (.release a) + hs'.count a := by
  cases op with
  | acquire b =>
    simp only [step] at h
    split at h
    . contradiction
    . injection h with h
      rw [← h]
      simp only [List.count_cons, List.count_nil, beq_iff_eq, Op.acquire.injEq, reduceCtorEq, if_false]
      omega
  | release b =>
    simp only [step] at h
    split at h
    . next hmem =>
      injection h with h
      rw [← h, List.count_erase]
      simp only [List.count_cons, List.count_nil, beq_iff_eq, Op.release.injEq, reduceCtorEq, if_false]
      split
      . next hba =>
        have : 0 < hs.count b := List.count_pos_iff.mpr hmem
        rw [hba] at this
        omega
      . omega
    . contradiction

theorem count_foldlM {ops : List (Op η)} {hs hs' : List η} (h : ops.foldlM step hs = some hs') (a : η)
    : ops.count (.acquire a) + hs.count a = ops.count (.release a) + hs'.count a := by
  induction ops generalizing hs with
  | nil =>
    simp only [List.foldlM_nil, Option.pure_def, Option.some_inj] at h
    rw [h, List.count_nil, List.count_nil]
  | cons op ops ih =>
    rw [List.foldlM_cons] at h
    obtain ⟨hs₁, hstep, hrest⟩ := Option.bind_eq_some_iff.mp h
    have hone := count_step hstep a
    have hcount := ih hrest
    rw [← List.singleton_append, List.count_append, List.count_append]
    omega

theorem count_of_held {ops : List (Op η)} {hs : List η} (h : held ops = some hs) (a : η)
    : ops.count (.acquire a) = ops.count (.release a) + hs.count a := by
  have := count_foldlM h a
  rw [List.count_nil] at this
  omega

end Ledger
