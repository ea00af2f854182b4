import Mathlib.Algebra.Order.Ring.Int

/-!
This module contains the XOR of a text with a key stream, from any position on.
-/

namespace KeyStream

variable {ks : Nat → UInt8} {pos : Nat} {x y : List UInt8}

def xorAt (ks : Nat → UInt8) (pos : Nat) (x : List UInt8) : List UInt8 :=
  x.mapIdx fun i b => b ^^^ ks (pos + i)

@[simp]
theorem length_xorAt : (xorAt ks pos x).length = x.length :=
  List.length_mapIdx

theorem xorAt_append : xorAt ks pos (x ++ y) = xorAt ks pos x ++ xorAt ks (pos + x.length) y := by
  have hadd : ∀ i, pos + (i + x.length) = pos + x.length + i := by
    intro i
    omega
  rw [xorAt, List.mapIdx_append]
  simp only [hadd, xorAt]

theorem drop_xorAt {padding : List UInt8} {n : Nat} (h : padding.length = n)
    : (xorAt ks pos (padding ++ x)).drop n = xorAt ks (pos + n) x := by
  have hlen : (xorAt ks pos padding).length = n := length_xorAt.trans h
  rw [xorAt_append, ← hlen, List.drop_left, length_xorAt]

theorem xorAt_xorAt : xorAt ks pos (xorAt ks pos x) = x := by
  rw [xorAt, xorAt, List.mapIdx_mapIdx]
  apply List.ext_getElem?
  intro i
  rw [List.getElem?_mapIdx]
  cases x[i]? with
  | none => rfl
  | some b =>
    apply congrArg some
    show b ^^^ ks (pos + i) ^^^ ks (pos + i) = b
    rw [UInt8.xor_assoc, UInt8.xor_self, UInt8.xor_zero]

end KeyStream
