import Mathlib.Algebra.Order.Ring.Int

/-!
This module contains the numbers whose big-endian representation is a list of bytes, with the first bit of the
list as the most significant one, and what it means that two numbers have their first bits in common.
-/

namespace BigEndian

variable {bs bs' : List UInt8} {n m B p i : Nat}

def number : List UInt8 → Nat
  | [] => 0
  | b :: bs => 2 ^ (8 * bs.length) * b.toNat + number bs

theorem number_lt : number bs < 2 ^ (8 * bs.length) := by
  induction bs with
  | nil => exact Nat.one_pos
  | cons b bs ih =>
    have hb : b.toNat + 1 ≤ 2 ^ 8 := b.toNat_lt
    rw [number, List.length_cons, Nat.mul_succ, Nat.pow_add]
    calc
      2 ^ (8 * bs.length) * b.toNat + number bs < 2 ^ (8 * bs.length) * (b.toNat + 1) := by
        rw [Nat.mul_succ]
        omega
      _ ≤ 2 ^ (8 * bs.length) * 2 ^ 8 := Nat.mul_le_mul_left _ hb

theorem number_inj (hlen : bs.length = bs'.length) (h : number bs = number bs') : bs = bs' := by
  induction bs generalizing bs' with
  | nil => exact (List.length_eq_zero_iff.mp hlen.symm).symm
  | cons b bs ih =>
    cases bs' with
    | nil => contradiction
    | cons b' bs' =>
      have hlen : bs.length = bs'.length := Nat.succ.inj hlen
      have hlt : number bs < 2 ^ (8 * bs.length) := number_lt
      have hlt' : number bs' < 2 ^ (8 * bs.length) := by
        rw [hlen]
        exact number_lt
      rw [number, number, ← hlen] at h
      have hdiv := congrArg (· / 2 ^ (8 * bs.length)) h
      have hmod := congrArg (· % 2 ^ (8 * bs.length)) h
      simp only [Nat.mul_add_mod, Nat.mod_eq_of_lt hlt, Nat.mod_eq_of_lt hlt',
        Nat.mul_add_div (Nat.two_pow_pos _), Nat.div_eq_of_lt hlt, Nat.div_eq_of_lt hlt', Nat.add_zero] at hdiv hmod
      rw [UInt8.toNat_inj.mp hdiv, ih hlen hmod]

theorem exists_number (k : Nat) (h : n < 2 ^ (8 * k)) : ∃ bs, bs.length = k ∧ number bs = n := by
  induction k generalizing n with
  | zero =>
    refine ⟨[], rfl, ?_⟩
    rw [number]
    omega
  | succ k ih =>
    obtain ⟨bs, hlen, hnumber⟩ := ih (Nat.mod_lt n (Nat.two_pow_pos (8 * k)))
    rw [Nat.mul_succ, Nat.pow_add] at h
    have hlt : n / 2 ^ (8 * k) < 2 ^ 8 := Nat.div_lt_of_lt_mul h
    refine ⟨UInt8.ofNat (n / 2 ^ (8 * k)) :: bs, by rw [List.length_cons, hlen], ?_⟩
    rw [number, hnumber, hlen, UInt8.toNat_ofNat_of_lt' hlt]
    exact Nat.div_add_mod n _

theorem exists_testBit (k : Nat) (σ : Nat → Bool) : ∃ n, n < 2 ^ k ∧ ∀ i, i < k → n.testBit (k - 1 - i) = σ i := by
  induction k with
  | zero => exact ⟨0, Nat.one_pos, fun i hi => absurd hi (Nat.not_lt_zero i)⟩
  | succ k ih =>
    obtain ⟨n, hlt, hn⟩ := ih
    have hbit := Bool.toNat_lt (σ k)
    refine ⟨2 * n + (σ k).toNat, by rw [Nat.pow_succ]; omega, fun i hi => ?_⟩
    rcases Nat.eq_or_lt_of_le (Nat.le_of_lt_succ hi) with rfl | hi
    . rw [Nat.add_sub_cancel, Nat.sub_self, Nat.testBit_zero]
      cases σ i <;> simp
    . have hsub : k + 1 - 1 - i = k - 1 - i + 1 := by omega
      have hhalf : (2 * n + (σ k).toNat) / 2 = n := by omega
      rw [hsub, Nat.testBit_succ, hhalf]
      exact hn i hi

theorem testBit_number (h : i < 8 * bs.length)
    : ∃ b, bs[i / 8]? = some b ∧ (number bs).testBit (8 * bs.length - 1 - i) = b.toNat.testBit (7 - i % 8) := by
  induction bs generalizing i with
  | nil => exact absurd h (Nat.not_lt_zero i)
  | cons b bs ih =>
    rw [number, Nat.testBit_two_pow_mul_add _ number_lt, List.length_cons, Nat.mul_succ]
    rw [List.length_cons, Nat.mul_succ] at h
    by_cases hi : i < 8
    . rw [if_neg (by omega), Nat.div_eq_of_lt hi, Nat.mod_eq_of_lt hi]
      have hsub : 8 * bs.length + 8 - 1 - i - 8 * bs.length = 7 - i := by omega
      exact ⟨b, rfl, by rw [hsub]⟩
    . obtain ⟨b', hb', htestBit⟩ := ih (i := i - 8) (by omega)
      have hsub : 8 * bs.length + 8 - 1 - i = 8 * bs.length - 1 - (i - 8) := by omega
      have hdiv : i / 8 = (i - 8) / 8 + 1 := by omega
      have hmod : i % 8 = (i - 8) % 8 := by omega
      rw [if_pos (by omega), hsub, hdiv, hmod]
      exact ⟨b', hb', htestBit⟩

theorem div_eq_div_iff_testBit (hn : n < 2 ^ B) (hm : m < 2 ^ B) (hp : p ≤ B)
    : n / 2 ^ (B - p) = m / 2 ^ (B - p) ↔ ∀ i, i < p → n.testBit (B - 1 - i) = m.testBit (B - 1 - i) := by
  constructor
  . intro heq i hi
    have hsub : B - 1 - i = p - 1 - i + (B - p) := by omega
    rw [hsub, ← Nat.testBit_div_two_pow, ← Nat.testBit_div_two_pow, heq]
  . intro hbits
    apply Nat.eq_of_testBit_eq
    intro j
    rw [Nat.testBit_div_two_pow, Nat.testBit_div_two_pow]
    by_cases hj : j < p
    . have hsub : j + (B - p) = B - 1 - (p - 1 - j) := by omega
      rw [hsub]
      exact hbits _ (by omega)
    . have hle : 2 ^ B ≤ 2 ^ (j + (B - p)) := Nat.pow_le_pow_right (by decide) (by omega)
      rw [Nat.testBit_lt_two_pow (by omega), Nat.testBit_lt_two_pow (by omega)]

end BigEndian
