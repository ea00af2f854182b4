import Mathlib.Algebra.Order.Ring.Int
import Mathlib.Data.List.TakeWhile
import Xsocks.Lib.Mem

/-!
This module contains the bytes, strings and constants shared by all parts of the model.
-/

namespace Xsocks

abbrev Byte := UInt8

def NET_IOBUF_LEN : Nat := 1024 * 16

def HOSTNAME_MAX_LEN : Nat := 256

def OK : Int := 0

def ERR : Int := -1

structure CString where
  bytes : List Byte
  noNul : 0 ∉ bytes
  deriving DecidableEq

namespace CString

/-- What string functions see of a `char` array that holds `buf` and a NUL after it. -/
def ofBuf (buf : List Byte) : CString where
  bytes := buf.takeWhile (· ≠ 0)
  noNul := by
    intro h
    have := List.mem_takeWhile_imp h
    simp at this

@[ext]
theorem ext {s t : CString} (h : s.bytes = t.bytes) : s = t := by
  cases s
  cases t
  simp only [mk.injEq]
  exact h

theorem ofBuf_of_noNul (buf : List Byte) (h : 0 ∉ buf) : (ofBuf buf).bytes = buf := by
  rw [ofBuf, List.takeWhile_eq_self_iff]
  intro b hb
  simp only [ne_eq, decide_not, Bool.not_eq_eq_eq_not, Bool.not_true, decide_eq_false_iff_not]
  intro heq
  rw [heq] at hb
  contradiction

@[simp]
theorem ofBuf_bytes (s : CString) : ofBuf s.bytes = s := by
  apply ext
  exact ofBuf_of_noNul s.bytes s.noNul

theorem length_ofBuf_le (buf : List Byte) : (ofBuf buf).bytes.length ≤ buf.length := by
  apply List.IsPrefix.length_le
  apply List.takeWhile_prefix

theorem length_ofBuf_eq_iff (buf : List Byte)
    : (ofBuf buf).bytes.length = buf.length ↔ 0 ∉ buf := by
  constructor
  . intro h
    have heq : (ofBuf buf).bytes = buf := (List.takeWhile_prefix _).eq_of_length h
    rw [← heq]
    exact (ofBuf buf).noNul
  . intro h
    rw [ofBuf_of_noNul buf h]

end CString

def Bytes (n : Nat) := { bs : List Byte // bs.length = n }

def bytesAt (m : Mem Byte) (off n : Nat) : Bytes n :=
  ⟨m.read off n, m.length_read off n⟩

/-- `errno` after a failed system call, as far as the code tells the values apart. -/
inductive Errno where
  | EAGAIN
  | EISCONN
  | EALREADY
  | EINPROGRESS
  | other (code : Nat)
  deriving DecidableEq

end Xsocks
