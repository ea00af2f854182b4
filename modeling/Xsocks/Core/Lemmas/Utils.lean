import Xsocks.Core.Impl.Utils
import Xsocks.Lib.Decimal

/-!
This module contains the proof that `xs_itoa` returns the canonical decimal text of its argument, whatever
earlier calls have left in the array.
-/

namespace Xsocks

open Decimal

theorem int_of_range {i : Int} (h : -2 ^ 31 ≤ i) (hlt : i < 2 ^ 31) : int i = some i :=
  if_pos ⟨h, hlt⟩

theorem tdiv_tmod_ten (i : Int)
    : (i.tdiv 10).natAbs = i.natAbs / 10 ∧ (i.tmod 10).natAbs = i.natAbs % 10
        ∧ 10 * i.tdiv 10 + i.tmod 10 = i :=
  ⟨Int.natAbs_tdiv i 10, Int.natAbs_tmod i 10, Int.mul_tdiv_add_tmod i 10⟩

theorem tdiv_signs (i : Int)
    : (0 ≤ i → 0 ≤ i.tdiv 10 ∧ 48 + i.tmod 10 = 48 + (i.natAbs % 10 : Nat))
        ∧ (i ≤ 0 → i.tdiv 10 ≤ 0 ∧ 48 - i.tmod 10 = 48 + (i.natAbs % 10 : Nat)) := by
  obtain ⟨hdiv, hmod, hsum⟩ := tdiv_tmod_ten i
  constructor
  . intro hi
    omega
  . intro hi
    omega

theorem UInt8_ofNat_digit {d : Nat} (h : d < 10) : UInt8.ofNat (48 + d) = (Nat.digitChar d).toUInt8 := by
  apply UInt8.toNat_inj.mp
  rw [(digit_cases d h).1, UInt8.toNat_ofNat']
  omega

namespace xsItoa

variable {buf : ItoaBuf} {c : Int → Int} {P : Int → Prop} {p : Nat} {i : Int}

theorem store_eq (buf : ItoaBuf) {b : Byte} (hp : p < INT_DIGITS + 2)
    : ∃ buf', buf.store p b = some buf' ∧ buf'.val = buf.val.take p ++ b :: buf.val.drop (p + 1) := by
  have hlen := buf.property
  refine ⟨_, if_pos hp, ?_⟩
  exact List.set_eq_take_append_cons_drop.trans (if_pos (by omega))

theorem loop_succ (hc : c (i.tmod 10) = 48 + (i.natAbs % 10 : Nat)) (hi : -2 ^ 31 ≤ i) (hlt : i < 2 ^ 31)
    : loop c (p + 1) i buf = do
        let buf ← buf.store p (Nat.digitChar (i.natAbs % 10)).toUInt8
        if i.tdiv 10 ≠ 0 then loop c p (i.tdiv 10) buf else return (p, buf) := by
  obtain ⟨hdiv, hmod, -⟩ := tdiv_tmod_ten i
  have hdigit : (c (i.tmod 10)).toNat = 48 + i.natAbs % 10 := by omega
  rw [loop, int_of_range (by omega) (by omega)]
  simp only [Option.bind_eq_bind, Option.bind_some]
  rw [int_of_range (by omega) (by omega), int_of_range (by omega) (by omega)]
  simp only [Option.bind_some]
  rw [hdigit, UInt8_ofNat_digit (by omega)]

/--
The digits of the number stand in front of `p`. `P` says which sign the number has, which the quotients keep.
-/
theorem loop_eq (buf : ItoaBuf) (hP : ∀ i, P i → P (i.tdiv 10))
    (hc : ∀ i, P i → c (i.tmod 10) = 48 + (i.natAbs % 10 : Nat)) (hp : p ≤ INT_DIGITS + 2) (hi : P i)
    (hge : -2 ^ 31 ≤ i) (hlt : i < 2 ^ 31) (hlen : (ofNat i.natAbs).length ≤ p)
    : ∃ q buf', loop c p i buf = some (q, buf') ∧ q + (ofNat i.natAbs).length = p
        ∧ buf'.val = buf.val.take q ++ ofNat i.natAbs ++ buf.val.drop p := by
  induction p generalizing i buf with
  | zero =>
    have := List.length_pos_iff.mpr (ofNat_ne_nil i.natAbs)
    omega
  | succ p ih =>
    obtain ⟨habs, -, hdiv⟩ := tdiv_tmod_ten i
    obtain ⟨buf₁, hstore, hbuf₁⟩ := store_eq buf (b := (Nat.digitChar (i.natAbs % 10)).toUInt8)
      (p := p) (by omega)
    rw [loop_succ (hc i hi) hge hlt, hstore]
    simp only [Option.bind_eq_bind, Option.bind_some]
    split
    . next hne =>
      -- The digits of the quotient come in front of the last one.
      have htext := ofNat_of_le (n := i.natAbs) (by omega)
      rw [htext, List.length_append, List.length_singleton] at hlen
      obtain ⟨q, buf', hloop, hq, hbuf'⟩ := ih (i := i.tdiv 10) buf₁ (by omega) (hP i hi) (by omega)
        (by omega) (by rw [habs]; omega)
      rw [habs] at hq hbuf'
      have hple : p ≤ buf.val.length := by
        have := buf.property
        omega
      refine ⟨q, buf', hloop, ?_, ?_⟩
      . rw [htext, List.length_append, List.length_singleton]
        omega
      . rw [hbuf', hbuf₁, htext, List.take_append_of_le_length (by rw [List.length_take]; omega), List.take_take,
          Nat.min_eq_left (by omega), List.drop_append_of_le_length (by rw [List.length_take]; omega),
          List.drop_take, Nat.sub_self, List.take_zero, List.nil_append, List.append_assoc, List.append_assoc,
          List.append_assoc, List.singleton_append]
    . next hzero =>
      have hdigit := ofNat_of_lt (n := i.natAbs) (by omega)
      refine ⟨p, buf₁, rfl, ?_, ?_⟩
      . rw [hdigit, List.length_singleton]
      . rw [hbuf₁, hdigit, Nat.mod_eq_of_lt (by omega), List.append_assoc, List.singleton_append]

end xsItoa

theorem xsItoa_eq (buf : ItoaBuf) (i : Int32)
    : ∃ p buf', xsItoa buf i = some (p, buf') ∧ p + (ofInt i.toInt).length = INT_DIGITS + 1
        ∧ buf'.val = buf.val.take p ++ ofInt i.toInt ++ buf.val.drop (INT_DIGITS + 1) := by
  have hge := i.le_toInt
  have hlt := i.toInt_lt
  have hlen : (ofNat i.toInt.natAbs).length ≤ 10 := by
    rw [length_ofNat_le_iff (by decide)]
    omega
  unfold xsItoa ofInt
  dsimp only
  by_cases hneg : i.toInt < 0
  . rw [if_neg (by omega), if_pos hneg]
    obtain ⟨q, buf₁, hloop, hq, hbuf₁⟩ := xsItoa.loop_eq buf (c := fun r => 48 - r) (P := (· ≤ 0))
      (p := INT_DIGITS + 1) (fun i hi => (tdiv_signs i).2 hi |>.1) (fun i hi => (tdiv_signs i).2 hi |>.2)
      (by omega) (Int.le_of_lt hneg) hge hlt (by rw [INT_DIGITS]; omega)
    rw [INT_DIGITS] at hq
    obtain ⟨p, rfl⟩ : ∃ p, q = p + 1 := ⟨q - 1, by omega⟩
    obtain ⟨buf₂, hstore, hbuf₂⟩ := xsItoa.store_eq buf₁ (b := 45) (p := p)
      (by rw [INT_DIGITS]; omega)
    have htake : (buf.val.take (p + 1)).length = p + 1 := by
      have := buf.property
      rw [List.length_take, this, INT_DIGITS]
      omega
    rw [hloop]
    simp only [Option.bind_eq_bind, Option.bind_some, hstore]
    refine ⟨p, buf₂, rfl, ?_, ?_⟩
    . rw [List.length_cons, INT_DIGITS]
      omega
    . rw [hbuf₂, hbuf₁, List.append_assoc, List.take_append_of_le_length (by omega), List.take_take,
        Nat.min_eq_left (by omega), List.drop_left' htake, List.append_assoc, List.cons_append]
  . rw [if_pos (by omega), if_neg hneg]
    exact xsItoa.loop_eq buf (P := (0 ≤ ·)) (fun i hi => (tdiv_signs i).1 hi |>.1)
      (fun i hi => (tdiv_signs i).1 hi |>.2) (by omega) (by omega) hge hlt (by rw [INT_DIGITS]; omega)

def ItoaBuf.Terminated (buf : ItoaBuf) : Prop :=
  buf.val.drop (INT_DIGITS + 1) = [0]

theorem xsItoa_str {buf : ItoaBuf} (h : buf.Terminated) (i : Int32)
    : ∃ p buf', xsItoa buf i = some (p, buf') ∧ buf'.Terminated ∧ (buf'.str p).bytes = ofInt i.toInt := by
  obtain ⟨p, buf', heq, hp, hbuf'⟩ := xsItoa_eq buf i
  have htake : (buf.val.take p).length = p := by
    have := buf.property
    rw [List.length_take, this]
    omega
  refine ⟨p, buf', heq, ?_, ?_⟩
  . unfold ItoaBuf.Terminated
    rw [hbuf', List.drop_left' (by rw [List.length_append, htake, hp])]
    exact h
  . unfold ItoaBuf.str
    rw [hbuf', h, List.append_assoc, List.drop_left' htake]
    exact List.takeWhile_append_of_pos (by
      intro b hb
      have hne : b ≠ 0 := by
        intro heq
        rw [heq] at hb
        exact zero_not_mem_ofInt _ hb
      simpa using hne) |>.trans (by simp)

theorem itoaCalls_terminated {b : ItoaBuf} (h : b.Terminated) (is : List Int32)
    : ∃ buf, itoaCalls b is = some buf ∧ buf.Terminated := by
  induction is generalizing b with
  | nil => exact ⟨b, rfl, h⟩
  | cons i is ih =>
    obtain ⟨p, buf₁, heq, hbuf₁, -⟩ := xsItoa_str h i
    obtain ⟨buf, heq', hbuf⟩ := ih hbuf₁
    refine ⟨buf, ?_, hbuf⟩
    rw [itoaCalls, heq]
    exact heq'

/--
After any calls the string of `i` is its canonical decimal text. No call overflows or leaves the array, and
the last byte of the array is never touched.
-/
theorem xsItoa_correct (is : List Int32) (i : Int32)
    : (∃ buf p buf', itoaCalls .zero is = some buf ∧ xsItoa buf i = some (p, buf')
          ∧ (buf'.str p).bytes = ofInt i.toInt ∧ Canonical (buf'.str p).bytes
          ∧ ((buf'.str p).bytes.head? = some 45 ↔ i.toInt < 0)
          ∧ toInt? (buf'.str p).bytes = some i.toInt)
        ∧ ∀ buf, ∃ p buf', xsItoa buf i = some (p, buf')
            ∧ buf'.val.drop (INT_DIGITS + 1) = buf.val.drop (INT_DIGITS + 1) := by
  constructor
  . obtain ⟨buf, hcalls, hbuf⟩ := itoaCalls_terminated (b := .zero) rfl is
    obtain ⟨p, buf', heq, -, hstr⟩ := xsItoa_str hbuf i
    refine ⟨buf, p, buf', hcalls, heq, hstr, ?_, ?_, ?_⟩
    . rw [hstr]
      exact canonical_ofInt _
    . rw [hstr]
      exact head?_ofInt_iff _
    . rw [hstr]
      exact toInt?_ofInt _
  . intro buf
    obtain ⟨p, buf', heq, hp, hbuf'⟩ := xsItoa_eq buf i
    refine ⟨p, buf', heq, ?_⟩
    have := buf.property
    rw [hbuf', List.drop_left']
    rw [List.length_append, List.length_take]
    omega

example : (xsItoa .zero Int32.minValue).map (fun r => (r.2.str r.1).bytes)
    = some (ofInt (-2147483648)) := by
  decide +kernel

end Xsocks
