import Mathlib.Data.List.Basic

/-!
This module contains a byte addressed buffer without a bound: reads of a range and writes of a
list of values at an offset.
-/

def Mem (α : Type) := Nat → α

namespace Mem

variable {α : Type}

def read (m : Mem α) (off n : Nat) : List α :=
  (List.range n).map fun i => m (off + i)

def write (m : Mem α) (off : Nat) (xs : List α) : Mem α :=
  fun i => if off ≤ i then xs.getD (i - off) (m i) else m i

def shift (m : Mem α) (off : Nat) : Mem α :=
  fun i => m (off + i)

def ofList (a : α) (xs : List α) : Mem α :=
  fun i => xs.getD i a

@[simp]
theorem length_read (m : Mem α) (off n : Nat) : (m.read off n).length = n := by
  simp [read]

@[simp]
theorem read_zero (m : Mem α) (off : Nat) : m.read off 0 = [] := by
  rfl

theorem read_congr {m m' : Mem α} (off n : Nat) (h : ∀ i, i < n → m (off + i) = m' (off + i))
    : m.read off n = m'.read off n := by
  apply List.map_congr_left
  intro i hi
  exact h i (List.mem_range.mp hi)

theorem getElem?_read (m : Mem α) (off n i : Nat)
    : (m.read off n)[i]? = if i < n then some (m (off + i)) else none := by
  simp only [read, List.getElem?_map]
  split
  . next h => simp [h]
  . next h => simp [h]

theorem read_append (m : Mem α) (off a b : Nat)
    : m.read off a ++ m.read (off + a) b = m.read off (a + b) := by
  simp [read, List.range_add, Nat.add_assoc, Function.comp_def]

theorem read_succ (m : Mem α) (off n : Nat) : m.read off (n + 1) = m off :: m.read (off + 1) n := by
  rw [Nat.add_comm, ← read_append]
  rfl

theorem drop_read (m : Mem α) (off n k : Nat)
    : (m.read off n).drop k = m.read (off + k) (n - k) := by
  apply List.ext_getElem?
  intro i
  rw [List.getElem?_drop, getElem?_read, getElem?_read, Nat.add_assoc]
  congr 1
  simp only [eq_iff_iff]
  omega

@[simp]
theorem read_write_self (m : Mem α) (off : Nat) (xs : List α)
    : (m.write off xs).read off xs.length = xs := by
  apply List.ext_getElem?
  intro i
  rw [getElem?_read]
  split
  . next h => simp [write, h]
  . next h => simp [Nat.le_of_not_lt h]

@[simp]
theorem write_nil (m : Mem α) (off : Nat) : m.write off [] = m := by
  funext i
  simp [write]

theorem write_append (m : Mem α) (xs ys : List α)
    : (m.write 0 xs).write xs.length ys = m.write 0 (xs ++ ys) := by
  funext i
  simp only [write, Nat.zero_le, if_true, Nat.sub_zero, List.getD_eq_getElem?_getD]
  split
  . next hle => rw [List.getElem?_append_right hle, List.getElem?_eq_none (l := xs) hle, Option.getD_none]
  . next hlt => rw [List.getElem?_append_left (by omega)]

@[simp]
theorem read_shift (m : Mem α) (off k n : Nat) : (m.shift off).read k n = m.read (off + k) n := by
  simp [read, shift, Nat.add_assoc]

theorem read_ofList_append (a : α) (xs ys zs : List α)
    : (ofList a (xs ++ ys ++ zs)).read xs.length ys.length = ys := by
  apply List.ext_getElem?
  intro i
  rw [getElem?_read]
  split
  . next h => simp [ofList, List.getElem?_append_right, List.getElem?_append_left, h]
  . next h => simp [Nat.le_of_not_lt h]

theorem eq_ofList_of_read {m : Mem α} {xs : List α} (h : m.read 0 xs.length = xs) (a : α) {i : Nat}
    (hi : i < xs.length)
    : m i = ofList a xs i := by
  have := getElem?_read m 0 xs.length i
  rw [h, if_pos hi, Nat.zero_add] at this
  simp [ofList, this]

end Mem
