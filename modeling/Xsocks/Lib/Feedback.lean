import Mathlib.Algebra.Order.Ring.Int

/-!
This module contains the output of a function that is fed with what it has given back, block after block, as much of it
as is asked for.
-/

namespace Feedback

variable {α : Type} (f : Nat → List α → List α)

def block : Nat → List α
  | 0 => []
  | n + 1 => f (n + 1) (block n)

def output : Nat → List α
  | 0 => []
  | n + 1 => output n ++ block f (n + 1)

variable {f} {size n m len : Nat}

theorem length_block (h : ∀ n T, (f n T).length = size) (n : Nat) : (block f (n + 1)).length = size :=
  h (n + 1) (block f n)

theorem length_output (h : ∀ n T, (f n T).length = size) (n : Nat) : (output f n).length = n * size := by
  induction n with
  | zero => rw [Nat.zero_mul]; rfl
  | succ n ih => rw [output, List.length_append, ih, length_block h, Nat.succ_mul]

theorem output_isPrefix (h : n ≤ m) : output f n <+: output f m := by
  induction m with
  | zero =>
    obtain rfl := Nat.le_zero.mp h
    exact List.prefix_refl _
  | succ m ih =>
    rcases Nat.le_succ_iff.mp h with h | rfl
    . exact (ih h).trans (List.prefix_append _ _)
    . exact List.prefix_refl _

theorem take_output (h : ∀ n T, (f n T).length = size) (hn : len ≤ n * size) (hm : len ≤ m * size)
    : (output f n).take len = (output f m).take len := by
  have hle : ∀ {n m : Nat}, n ≤ m → len ≤ n * size → (output f n).take len = (output f m).take len := by
    intro n m hnm hn
    obtain ⟨rest, hrest⟩ := output_isPrefix (f := f) hnm
    rw [← hrest, List.take_append_of_le_length (by rw [length_output h]; exact hn)]
  rcases Nat.le_total n m with hnm | hnm
  . exact hle hnm hn
  . exact (hle hnm hm).symm

theorem length_take_output (h : ∀ n T, (f n T).length = size) (hn : len ≤ n * size)
    : ((output f n).take len).length = len := by
  rw [List.length_take, length_output h, Nat.min_eq_left hn]

theorem take_output_succ (h : ∀ n T, (f n T).length = size) (hn : n * size ≤ len)
    : (output f (n + 1)).take len = output f n ++ (block f (n + 1)).take (len - (output f n).length) := by
  rw [output, List.take_append, List.take_of_length_le (by rw [length_output h]; exact hn)]

end Feedback
