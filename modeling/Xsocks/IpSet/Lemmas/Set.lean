import Mathlib.Data.Nat.Bitwise
import Xsocks.IpSet.Impl.Set
import Xsocks.IpSet.Lemmas.Insert
import Xsocks.Lib.BigEndian

/-!
This module contains the meaning of a set of IP addresses: its diagram is the one of a set of addresses, and
adding or removing a network changes exactly the addresses of that network.
-/

namespace Xsocks

namespace IpSet

open Wp NodeCache

/-! # Addresses and networks -/

namespace CorkIp

def version : CorkIp → Family
  | v4 _ => .inet
  | v6 _ => .inet6

def ip : (addr : CorkIp) → Bytes addr.version.size
  | v4 ip => ip
  | v6 ip => ip

def bits (addr : CorkIp) : Nat :=
  IP_BIT_SIZE addr.version

def number (addr : CorkIp) : Nat :=
  BigEndian.number addr.ip.val

def network (addr : CorkIp) (cidrPrefix : Nat) : Set CorkIp :=
  {a | a.version = addr.version
    ∧ a.number / 2 ^ (addr.bits - cidrPrefix) = addr.number / 2 ^ (addr.bits - cidrPrefix)}

def values (addr : CorkIp) : Nat → Bool
  | 0 => IP_DISCRIMINATOR_VALUE addr.version
  | i + 1 => addr.number.testBit (addr.bits - 1 - i)

end CorkIp

section

variable {a b : CorkIp} {i n : Nat} {σ τ : Nat → Bool}

theorem IPSET_BIT_ON_MASK_toNat : (IPSET_BIT_ON_MASK i).toNat = 2 ^ (7 - i % 8) := by
  have hall : ∀ k, k < 8 → ((0x80 : Byte) >>> UInt8.ofNat k).toNat = 2 ^ (7 - k) := by decide
  exact hall (i % 8) (Nat.mod_lt i (by decide))

theorem and_IPSET_BIT_ON_MASK {byte : Byte}
    : decide (byte &&& IPSET_BIT_ON_MASK i ≠ 0) = byte.toNat.testBit (7 - i % 8) := by
  have hiff : byte &&& IPSET_BIT_ON_MASK i = 0 ↔ byte.toNat.testBit (7 - i % 8) = false := by
    rw [← UInt8.toNat_inj, UInt8.toNat_and, IPSET_BIT_ON_MASK_toNat, Nat.and_two_pow]
    cases byte.toNat.testBit (7 - i % 8) with
    | false => simp
    | true => simp
  cases h : byte.toNat.testBit (7 - i % 8) with
  | false => simpa using hiff.mpr h
  | true =>
    rw [decide_eq_true_iff]
    intro hzero
    rw [hiff.mp hzero] at h
    contradiction

theorem IP_DISCRIMINATOR_VALUE_inj {f g : Family} (h : IP_DISCRIMINATOR_VALUE f = IP_DISCRIMINATOR_VALUE g)
    : f = g := by
  cases f <;> cases g <;> first | rfl | contradiction

namespace CorkIp

theorem bits_eq : a.bits = 8 * a.ip.val.length := by
  rw [a.ip.property]
  rfl

theorem bits_le : a.bits ≤ 128 := by
  rw [bits]
  cases a.version <;> decide

theorem number_lt : a.number < 2 ^ a.bits := by
  rw [bits_eq]
  exact BigEndian.number_lt

theorem ext_of_number (hversion : a.version = b.version) (hnumber : a.number = b.number) : a = b := by
  have hip : a.ip.val = b.ip.val := by
    apply BigEndian.number_inj _ hnumber
    rw [a.ip.property, b.ip.property, hversion]
  cases a with
  | v4 ip =>
    cases b with
    | v4 ip' => exact congrArg v4 (Subtype.ext hip)
    | v6 ip' => contradiction
  | v6 ip =>
    cases b with
    | v4 ip' => contradiction
    | v6 ip' => exact congrArg v6 (Subtype.ext hip)

theorem exists_of_number (f : Family) (h : n < 2 ^ IP_BIT_SIZE f) : ∃ a : CorkIp, a.version = f ∧ a.number = n := by
  obtain ⟨bs, hlen, hnumber⟩ := BigEndian.exists_number f.size h
  cases f with
  | inet => exact ⟨.v4 ⟨bs, hlen⟩, rfl, hnumber⟩
  | inet6 => exact ⟨.v6 ⟨bs, hlen⟩, rfl, hnumber⟩

theorem network_bits : a.network a.bits = {a} := by
  ext b
  rw [Set.mem_singleton_iff, network, Set.mem_ofPred_eq, Nat.sub_self, Nat.pow_zero, Nat.div_one, Nat.div_one]
  constructor
  . rintro ⟨hversion, hnumber⟩
    exact ext_of_number hversion hnumber
  . rintro rfl
    exact ⟨rfl, rfl⟩

theorem assignment_eq (h : i ≤ a.bits) : ipsetIpvXAssignment a.version a.ip i = some (a.values i) := by
  rw [ipsetIpvXAssignment]
  cases i with
  | zero => rfl
  | succ i =>
    rw [if_neg (Nat.succ_ne_zero i), IPSET_BIT_GET, ipsetIpvXBitForVar, Nat.add_sub_cancel, values, number, bits_eq]
    rw [bits_eq] at h
    obtain ⟨byte, hbyte, htestBit⟩ := BigEndian.testBit_number (i := i) (Nat.lt_of_succ_le h)
    rw [hbyte, htestBit, Option.map_some, and_IPSET_BIT_ON_MASK]

theorem matches_values {cidrPrefix : Nat} (h : cidrPrefix ≤ a.bits)
    : Matches a.values 0 (cidrPrefix + 1) b.values ↔ b ∈ a.network cidrPrefix := by
  rw [network, Set.mem_ofPred_eq]
  constructor
  . intro hmatches
    have hversion : b.version = a.version :=
      IP_DISCRIMINATOR_VALUE_inj (hmatches 0 (Nat.le_refl 0) (Nat.succ_pos _))
    have hbits : b.bits = a.bits := congrArg IP_BIT_SIZE hversion
    refine ⟨hversion, ?_⟩
    rw [BigEndian.div_eq_div_iff_testBit (by rw [← hbits]; exact number_lt) number_lt h]
    intro i hi
    have := hmatches (i + 1) (Nat.zero_le _) (Nat.succ_lt_succ hi)
    rw [values, values, hbits] at this
    exact this
  . rintro ⟨hversion, hnumber⟩ i - hi
    have hbits : b.bits = a.bits := congrArg IP_BIT_SIZE hversion
    rw [BigEndian.div_eq_div_iff_testBit (by rw [← hbits]; exact number_lt) number_lt h] at hnumber
    cases i with
    | zero => rw [values, values, hversion]
    | succ i =>
      rw [values, values, hbits]
      exact hnumber i (Nat.lt_of_succ_lt_succ hi)

end CorkIp

def Agrees (σ : Nat → Bool) (a : CorkIp) : Prop :=
  ∀ i, i ≤ a.bits → σ i = a.values i

theorem agrees_values : Agrees a.values a :=
  fun _ _ => rfl

theorem Agrees.of_eq (h : Agrees σ a) (heq : ∀ i, i ≤ a.bits → τ i = σ i) : Agrees τ a :=
  fun i hi => (heq i hi).trans (h i hi)

theorem exists_agrees (σ : Nat → Bool) : ∃ a, Agrees σ a := by
  obtain ⟨f, hf⟩ : ∃ f, σ 0 = IP_DISCRIMINATOR_VALUE f := by
    cases hσ : σ 0 with
    | true => exact ⟨.inet, rfl⟩
    | false => exact ⟨.inet6, rfl⟩
  obtain ⟨n, hlt, hn⟩ := BigEndian.exists_testBit (IP_BIT_SIZE f) fun i => σ (i + 1)
  obtain ⟨a, rfl, hnumber⟩ := CorkIp.exists_of_number f hlt
  refine ⟨a, fun i hi => ?_⟩
  cases i with
  | zero => exact hf
  | succ i =>
    rw [CorkIp.values, hnumber]
    exact (hn i hi).symm

theorem Agrees.matches_iff (h : Agrees σ b) {cidrPrefix : Nat} (hle : cidrPrefix ≤ a.bits)
    : Matches a.values 0 (cidrPrefix + 1) σ ↔ b ∈ a.network cidrPrefix := by
  rw [← CorkIp.matches_values hle]
  have hbits : σ 0 = a.values 0 → b.bits = a.bits := by
    intro heq
    rw [h 0 (Nat.zero_le _)] at heq
    exact congrArg IP_BIT_SIZE (IP_DISCRIMINATOR_VALUE_inj heq)
  constructor
  . intro hmatches i hi hlt
    have := hbits (hmatches 0 (Nat.le_refl 0) (Nat.succ_pos _))
    rw [← h i (by omega)]
    exact hmatches i hi hlt
  . intro hmatches i hi hlt
    have h0 := hmatches 0 (Nat.le_refl 0) (Nat.succ_pos _)
    rw [← h 0 (Nat.zero_le _)] at h0
    have := hbits h0
    rw [h i (by omega)]
    exact hmatches i hi hlt

/-! # The diagram of a set of addresses -/

def Denotes (t : Bdd Nat) (S : Set CorkIp) : Prop :=
  ∀ σ a, Agrees σ a → (a ∈ S → t.eval σ = 1) ∧ (a ∉ S → t.eval σ = 0)

variable {t u : Bdd Nat} {S S' : Set CorkIp} {V W m : Nat}

theorem Denotes.eval_eq (h : Denotes t S) (h' : Denotes u S) (σ : Nat → Bool) : t.eval σ = u.eval σ := by
  obtain ⟨a, ha⟩ := exists_agrees σ
  by_cases hmem : a ∈ S
  . rw [(h σ a ha).1 hmem, (h' σ a ha).1 hmem]
  . rw [(h σ a ha).2 hmem, (h' σ a ha).2 hmem]

theorem Denotes.eq_iff (h : Denotes t S) (h' : Denotes u S') (ht : t.Ordered n V) (hu : u.Ordered m W)
    (hrt : t.Reduced) (hru : u.Reduced)
    : t = u ↔ S = S' := by
  constructor
  . rintro rfl
    ext a
    have hS := h a.values a agrees_values
    have hS' := h' a.values a agrees_values
    constructor
    . intro hmem
      by_contra hnot
      have := hS'.2 hnot
      rw [hS.1 hmem] at this
      contradiction
    . intro hmem
      by_contra hnot
      have := hS.2 hnot
      rw [hS'.1 hmem] at this
      contradiction
  . rintro rfl
    exact Bdd.eq_of_eval_eq (ht.mono (Nat.zero_le n)) (hu.mono (Nat.zero_le m)) hrt hru (h.eval_eq h')

theorem Denotes.le_of_asks (h : Denotes t S) (ht : t.Ordered 0 V) (hrt : t.Reduced) (hasks : t.Asks a.values i)
    : i ≤ a.bits := by
  rcases Nat.eq_zero_or_pos i with rfl | hpos
  . exact Nat.zero_le _
  have hfree : (t.cofactor 0 (a.values 0)).Ordered 1 (a.bits + 1) := by
    apply Bdd.Ordered.of_indep (Bdd.ordered_cofactor ht _) (Bdd.reduced_cofactor hrt _ _)
    intro σ τ heq
    rw [Bdd.eval_cofactor ht, Bdd.eval_cofactor ht]
    obtain ⟨b, hb⟩ := exists_agrees (Function.update σ 0 (a.values 0))
    have hbits : b.bits = a.bits := by
      have hzero := hb 0 (Nat.zero_le _)
      rw [Function.update_self] at hzero
      exact congrArg IP_BIT_SIZE (IP_DISCRIMINATOR_VALUE_inj hzero.symm)
    have hb' : Agrees (Function.update τ 0 (a.values 0)) b := by
      apply hb.of_eq
      intro i hi
      by_cases hzero : i = 0
      . rw [hzero, Function.update_self, Function.update_self]
      . rw [Function.update_of_ne hzero, Function.update_of_ne hzero, heq i (by omega)]
    by_cases hmem : b ∈ S
    . rw [(h _ b hb).1 hmem, (h _ b hb').1 hmem]
    . rw [(h _ b hb).2 hmem, (h _ b hb').2 hmem]
  exact Nat.le_of_lt_succ (hfree.of_asks (hasks.cofactor (by omega))).2

theorem denotes_empty : Denotes (.leaf 0) ∅ :=
  fun _ a _ => ⟨fun h => absurd h (Set.notMem_empty a), fun _ => rfl⟩

def inserted (S N : Set CorkIp) (value : Nat) : Set CorkIp :=
  if value = 0 then S \ N else S ∪ N

theorem Denotes.inserted {cidrPrefix value : Nat} (h : Denotes t S) (hle : cidrPrefix ≤ a.bits) (hvalue : value ≤ 1)
    (hu : Inserted V a.values 0 (cidrPrefix + 1) value t u)
    : Denotes u (inserted S (a.network cidrPrefix) value) := by
  intro σ b hb
  have hiff := hb.matches_iff hle
  obtain ⟨hinside, houtside⟩ := hu.eval σ
  rw [hiff] at hinside houtside
  have hold := h σ b hb
  rw [IpSet.inserted]
  by_cases hnet : b ∈ a.network cidrPrefix
  . rw [hinside hnet]
    rcases Nat.le_one_iff_eq_zero_or_eq_one.mp hvalue with rfl | rfl
    . rw [if_pos rfl]
      exact ⟨fun hmem => absurd hnet hmem.2, fun _ => rfl⟩
    . rw [if_neg Nat.one_ne_zero]
      exact ⟨fun _ => rfl, fun hnot => absurd (.inr hnet) hnot⟩
  . rw [houtside hnet]
    split
    . exact ⟨fun hmem => hold.1 hmem.1, fun hnot => hold.2 fun hmem => hnot ⟨hmem, hnet⟩⟩
    . exact ⟨fun hmem => hold.1 (hmem.resolve_right hnet), fun hnot => hold.2 fun hmem => hnot (.inl hmem)⟩

end

end IpSet

end Xsocks
