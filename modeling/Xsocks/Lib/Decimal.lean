import Mathlib.Algebra.Order.Ring.Int
import Mathlib.Data.List.Basic

/-!
This module contains decimal numerals in ASCII: the canonical text of a number and the number that a text
stands for.
-/

namespace Decimal

def ascii (cs : List Char) : List UInt8 :=
  cs.map Char.toUInt8

def ofNat (n : Nat) : List UInt8 :=
  ascii (Nat.toDigits 10 n)

def ofInt (i : Int) : List UInt8 :=
  if i < 0 then 45 :: ofNat i.natAbs else ofNat i.natAbs

def IsDigit (b : UInt8) : Prop :=
  48 ≤ b ∧ b ≤ 57

instance (b : UInt8) : Decidable (IsDigit b) :=
  inferInstanceAs (Decidable (_ ∧ _))

def val (n : Nat) (bs : List UInt8) : Nat :=
  bs.foldl (fun n b => 10 * n + (b.toNat - 48)) n

def Numeral (bs : List UInt8) : Prop :=
  bs ≠ [] ∧ ∀ b ∈ bs, IsDigit b

instance (bs : List UInt8) : Decidable (Numeral bs) :=
  @instDecidableAnd _ _ inferInstance (List.decidableBAll IsDigit bs)

/-- The integer that a text stands for, if it is a numeral with or without a sign. -/
def toInt? (bs : List UInt8) : Option Int :=
  match bs with
  | 45 :: bs => if Numeral bs then some (-val 0 bs) else none
  | bs => if Numeral bs then some (val 0 bs) else none

def Canonical (bs : List UInt8) : Prop :=
  match bs with
  | 45 :: b :: _ => b ≠ 48
  | 48 :: bs => bs = []
  | _ => True

theorem not_isDigit_sign : ¬IsDigit 45 := by
  decide

theorem digit_cases (d : Nat) (h : d < 10)
    : (Nat.digitChar d).toUInt8.toNat = 48 + d ∧ IsDigit (Nat.digitChar d).toUInt8 := by
  have hall : ∀ d, d < 10 → (Nat.digitChar d).toUInt8.toNat = 48 + d ∧ IsDigit (Nat.digitChar d).toUInt8 := by
    decide
  exact hall d h

theorem ofNat_of_lt {n : Nat} (h : n < 10) : ofNat n = [(Nat.digitChar n).toUInt8] := by
  unfold ofNat
  rw [Nat.toDigits_of_lt_base h]
  rfl

theorem ofNat_of_le {n : Nat} (h : 10 ≤ n)
    : ofNat n = ofNat (n / 10) ++ [(Nat.digitChar (n % 10)).toUInt8] := by
  unfold ofNat ascii
  rw [Nat.toDigits_of_base_le (by omega) h, List.map_append]
  rfl

theorem ofNat_ne_nil (n : Nat) : ofNat n ≠ [] := by
  unfold ofNat ascii
  simp

theorem length_ofNat_le_iff {n k : Nat} (h : 0 < k) : (ofNat n).length ≤ k ↔ n < 10 ^ k := by
  unfold ofNat ascii
  rw [List.length_map]
  exact Nat.length_toDigits_le_iff (by omega) h

theorem isDigit_of_mem_ofNat {n : Nat} {b : UInt8} (h : b ∈ ofNat n) : IsDigit b := by
  induction n using Nat.strongRecOn with
  | ind n ih =>
    by_cases hn : n < 10
    . rw [ofNat_of_lt hn, List.mem_singleton] at h
      rw [h]
      exact (digit_cases n hn).2
    . rw [ofNat_of_le (by omega), List.mem_append, List.mem_singleton] at h
      cases h with
      | inl h => exact ih (n / 10) (by omega) h
      | inr h =>
        rw [h]
        exact (digit_cases (n % 10) (by omega)).2

theorem numeral_ofNat (n : Nat) : Numeral (ofNat n) :=
  ⟨ofNat_ne_nil n, fun _ h => isDigit_of_mem_ofNat h⟩

theorem val_append (n : Nat) (bs cs : List UInt8) : val n (bs ++ cs) = val (val n bs) cs := by
  unfold val
  rw [List.foldl_append]

theorem val_ofNat (n : Nat) : val 0 (ofNat n) = n := by
  induction n using Nat.strongRecOn with
  | ind n ih =>
    by_cases hn : n < 10
    . rw [ofNat_of_lt hn]
      simp [val, (digit_cases n hn).1]
    . rw [ofNat_of_le (by omega), val_append, ih (n / 10) (by omega)]
      simp only [val, List.foldl_cons, List.foldl_nil, (digit_cases (n % 10) (by omega)).1]
      omega

theorem head?_ofNat {n : Nat} (h : n ≠ 0) : (ofNat n).head? ≠ some 48 := by
  induction n using Nat.strongRecOn with
  | ind n ih =>
    by_cases hn : n < 10
    . rw [ofNat_of_lt hn]
      intro heq
      rw [List.head?_cons, Option.some.injEq] at heq
      have := (digit_cases n hn).1
      rw [heq] at this
      simp only [UInt8.reduceToNat] at this
      omega
    . rw [ofNat_of_le (by omega), List.head?_append_of_ne_nil _ (ofNat_ne_nil _)]
      exact ih (n / 10) (by omega) (by omega)

theorem ofNat_zero : ofNat 0 = [48] := by
  rfl

theorem canonical_ofNat (n : Nat) : Canonical (ofNat n) := by
  by_cases hn : n = 0
  . rw [hn, ofNat_zero]
    rfl
  . have hhead := head?_ofNat hn
    have hdigit := @isDigit_of_mem_ofNat n
    generalize ofNat n = bs at hhead hdigit
    unfold Canonical
    split
    . exact absurd (hdigit List.mem_cons_self) not_isDigit_sign
    . exact absurd rfl hhead
    . trivial

theorem canonical_ofInt (i : Int) : Canonical (ofInt i) := by
  unfold ofInt
  split
  . have hhead := head?_ofNat (n := i.natAbs) (by omega)
    generalize ofNat i.natAbs = bs at hhead
    cases bs with
    | nil => trivial
    | cons b bs =>
      intro heq
      rw [heq] at hhead
      exact hhead rfl
  . exact canonical_ofNat _

theorem head?_ofInt_iff (i : Int) : (ofInt i).head? = some 45 ↔ i < 0 := by
  unfold ofInt
  split
  . next h => simp [h]
  . next h =>
    simp only [h, iff_false]
    intro heq
    exact not_isDigit_sign (isDigit_of_mem_ofNat (List.mem_of_head? heq))

theorem toInt?_ofInt (i : Int) : toInt? (ofInt i) = some i := by
  unfold ofInt
  split
  . rw [toInt?, if_pos (numeral_ofNat _), val_ofNat, Option.some.injEq]
    omega
  . next h =>
    have hhead := (head?_ofInt_iff i).not.mpr h
    rw [ofInt, if_neg h] at hhead
    unfold toInt?
    split
    . next heq =>
      rw [heq] at hhead
      exact absurd rfl hhead
    . rw [if_pos (numeral_ofNat _), val_ofNat, Option.some.injEq]
      omega

theorem ofInt_injective {i j : Int} (h : ofInt i = ofInt j) : i = j := by
  have := toInt?_ofInt i
  rw [h, toInt?_ofInt] at this
  exact (Option.some.inj this).symm

theorem zero_not_mem_ofInt (i : Int) : 0 ∉ ofInt i := by
  intro h
  have hdigit : (0 : UInt8) ∈ ofNat i.natAbs := by
    unfold ofInt at h
    split at h
    . simpa using h
    . exact h
  exact absurd (isDigit_of_mem_ofNat hdigit) (by decide)

end Decimal
