import Xsocks.Core.Basic

/-!
This module contains `xs_itoa` of `core/utils.c`.
-/

namespace Xsocks

def INT_DIGITS : Nat := 19

abbrev ItoaBuf := Bytes (INT_DIGITS + 2)

namespace ItoaBuf

def zero : ItoaBuf :=
  ⟨List.replicate (INT_DIGITS + 2) 0, by simp⟩

def store (buf : ItoaBuf) (p : Nat) (b : Byte) : Option ItoaBuf :=
  if p < INT_DIGITS + 2 then
    some ⟨buf.val.set p b, by rw [List.length_set, buf.property]⟩
  else none

def str (buf : ItoaBuf) (p : Nat) : CString :=
  .ofBuf (buf.val.drop p)

end ItoaBuf

/-- The value of an expression of type `int`, `none` if it overflows. -/
def int (i : Int) : Option Int :=
  if -2 ^ 31 ≤ i ∧ i < 2 ^ 31 then some i else none

/--
The string of `i` is the one that starts at the offset that is returned. `none` stands for anything that has
no defined meaning in C: an overflow, a pointer in front of the array or a store outside of it.
-/
def xsItoa (buf : ItoaBuf) (i : Int32) : Option (Nat × ItoaBuf) := do
  let p := INT_DIGITS + 1
  if 0 ≤ i.toInt then
    loop (fun r => 48 + r) p i.toInt buf
  else
    let (p, buf) ← loop (fun r => 48 - r) p i.toInt buf
    match p with
    | 0 => none
    | p + 1 =>
      let buf ← buf.store p 45
      return (p, buf)
where
  loop (c : Int → Int) : Nat → Int → ItoaBuf → Option (Nat × ItoaBuf)
  | 0, _, _ => none
  | p + 1, i, buf => do
    let r ← int (i.tmod 10)
    let d ← int (c r)
    let buf ← buf.store p (UInt8.ofNat d.toNat)
    let i ← int (i.tdiv 10)
    if i ≠ 0 then loop c p i buf else return (p, buf)

def itoaCalls (buf : ItoaBuf) : List Int32 → Option ItoaBuf
  | [] => some buf
  | i :: is => do
    let (_, buf) ← xsItoa buf i
    itoaCalls buf is

end Xsocks
