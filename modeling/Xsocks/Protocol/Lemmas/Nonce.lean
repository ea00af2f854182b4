import Mathlib.Data.Nat.Digits.Defs
import Mathlib.Logic.Function.Iterate
import Xsocks.Protocol.Impl.Cipher

/-!
This module contains the nonces of an AEAD cipher, as numbers with their lowest byte first: a key meets no nonce
twice before all of them have been used.
-/

namespace Xsocks

def nonceValue (nonce : List Byte) : Nat :=
  Nat.ofDigits 256 (nonce.map UInt8.toNat)

theorem length_sodiumIncrement (nonce : List Byte) : (sodiumIncrement nonce).length = nonce.length := by
  induction nonce with
  | nil => rfl
  | cons b bs ih =>
    rw [sodiumIncrement]
    split
    . rw [List.length_cons, ih, List.length_cons]
    . rfl

theorem nonceValue_cons (b : Byte) (bs : List Byte) : nonceValue (b :: bs) = b.toNat + 256 * nonceValue bs := by
  rw [nonceValue, List.map_cons, Nat.ofDigits_cons]
  rfl

theorem nonceValue_lt (nonce : List Byte) : nonceValue nonce < 256 ^ nonce.length := by
  induction nonce with
  | nil => exact Nat.one_pos
  | cons b bs ih =>
    have hb := b.toNat_lt
    rw [nonceValue_cons, List.length_cons, Nat.pow_succ]
    omega

theorem nonceValue_sodiumIncrement (nonce : List Byte)
    : nonceValue (sodiumIncrement nonce) = (nonceValue nonce + 1) % 256 ^ nonce.length := by
  induction nonce with
  | nil => rfl
  | cons b bs ih =>
    have hlt := nonceValue_lt bs
    rw [sodiumIncrement, nonceValue_cons, List.length_cons, Nat.pow_succ, Nat.mul_comm (256 ^ bs.length)]
    split
    . next heq =>
      have hsum : b.toNat + 256 * nonceValue bs + 1 = 256 * (nonceValue bs + 1) := by
        rw [heq]
        change 255 + 256 * nonceValue bs + 1 = _
        omega
      rw [nonceValue_cons, ih, hsum, Nat.mul_mod_mul_left]
      exact Nat.zero_add _
    . next hne =>
      have hb : b.toNat ≠ 255 := fun heq => hne (UInt8.toNat_inj.mp heq)
      have hb' := b.toNat_lt
      have hsucc : (b + 1).toNat = b.toNat + 1 := by
        rw [UInt8.toNat_add, UInt8.toNat_one]
        omega
      rw [nonceValue_cons, hsucc, Nat.mod_eq_of_lt (by omega)]
      omega

namespace AeadCipher

def nonceAt (K : AeadCipher) (n : Nat) : List Byte :=
  sodiumIncrement^[n] (List.replicate K.nonceLen 0)

variable {K : AeadCipher}

theorem nonceAt_succ (n : Nat) : K.nonceAt (n + 1) = sodiumIncrement (K.nonceAt n) :=
  Function.iterate_succ_apply' _ _ _

theorem length_nonceAt (n : Nat) : (K.nonceAt n).length = K.nonceLen := by
  induction n with
  | zero => exact List.length_replicate
  | succ n ih => rw [nonceAt_succ, length_sodiumIncrement, ih]

theorem nonceValue_nonceAt (n : Nat) : nonceValue (K.nonceAt n) = n % 256 ^ K.nonceLen := by
  induction n with
  | zero =>
    have hzero : ∀ k, nonceValue (List.replicate k 0) = 0 := by
      intro k
      induction k with
      | zero => rfl
      | succ k ih => rw [List.replicate_succ, nonceValue_cons, ih]; rfl
    rw [Nat.zero_mod]
    exact hzero K.nonceLen
  | succ n ih => rw [nonceAt_succ, nonceValue_sodiumIncrement, ih, length_nonceAt, Nat.mod_add_mod]

theorem nonceAt_inj {n m : Nat} (hn : n < 256 ^ K.nonceLen) (hm : m < 256 ^ K.nonceLen)
    (h : K.nonceAt n = K.nonceAt m)
    : n = m := by
  have hvalue := congrArg nonceValue h
  rw [nonceValue_nonceAt, nonceValue_nonceAt, Nat.mod_eq_of_lt hn, Nat.mod_eq_of_lt hm] at hvalue
  exact hvalue

end AeadCipher

end Xsocks
