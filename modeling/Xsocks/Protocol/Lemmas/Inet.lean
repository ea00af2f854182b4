import Mathlib.Data.List.Basic
import Xsocks.Protocol.Impl.Socks5

/-!
This module contains what the programs rely on in the address texts of the C library, and texts that
behave that way.
-/

namespace Xsocks

namespace Inet

structure Lawful (I : Inet) : Prop where
  pton_ntop : ∀ f addr, I.pton f (I.ntop f addr) = some addr
  ntop_inet : ∀ addr, ∀ b ∈ (I.ntop .inet addr).bytes, 48 ≤ b ∧ b ≤ 57 ∨ b = 46
  ntop_inet6 : ∀ addr, 58 ∈ (I.ntop .inet6 addr).bytes
  length_ntop : ∀ f addr, (I.ntop f addr).bytes.length < 46

def decimal (b : Byte) : List Byte :=
  if b < 10 then [48 + b]
  else if b < 100 then [48 + b / 10, 48 + b % 10]
  else [48 + b / 100, 48 + b / 10 % 10, 48 + b % 10]

def ofDecimal (ds : List Byte) : Option Byte :=
  if ds.any fun d => d < 48 || 57 < d then none
  else
    match ds.map fun d => (d - 48).toNat with
    | [a] => some (UInt8.ofNat a)
    | [a, b] => if a = 0 then none else some (UInt8.ofNat (10 * a + b))
    | [a, b, c] =>
      if a = 0 ∨ 255 < 100 * a + 10 * b + c then none
      else some (UInt8.ofNat (100 * a + 10 * b + c))
    | _ => none

def hexDigit (n : Byte) : Byte :=
  if n < 10 then 48 + n else 87 + n

def ofHexDigit (d : Byte) : Option Byte :=
  if 48 ≤ d ∧ d ≤ 57 then some (d - 48)
  else if 97 ≤ d ∧ d ≤ 102 then some (d - 87)
  else none

def hexGroup (a b : Byte) : List Byte :=
  [hexDigit (a / 16), hexDigit (a % 16), hexDigit (b / 16), hexDigit (b % 16)]

def ofHexGroup : List Byte → Option (List Byte)
  | [w, x, y, z] => do
    let w ← ofHexDigit w
    let x ← ofHexDigit x
    let y ← ofHexDigit y
    let z ← ofHexDigit z
    return [16 * w + x, 16 * y + z]
  | _ => none

def groups : List Byte → List (List Byte)
  | a :: b :: bs => hexGroup a b :: groups bs
  | _ => []

def ofGroups : List (List Byte) → Option (List Byte)
  | [] => some []
  | g :: gs => do
    let bs ← ofHexGroup g
    let rest ← ofGroups gs
    return bs ++ rest

def ofLength (n : Nat) (bs : List Byte) : Option (Bytes n) :=
  if h : bs.length = n then some ⟨bs, h⟩ else none

def ofOctets : List (List Byte) → Option (List Byte)
  | [] => some []
  | o :: os => do
    let b ← ofDecimal o
    let bs ← ofOctets os
    return b :: bs

def parts (f : Family) (addr : Bytes f.size) : List (List Byte) :=
  match f with
  | .inet => addr.val.map decimal
  | .inet6 => groups addr.val

def separator : Family → Byte
  | .inet => 46
  | .inet6 => 58

theorem forall_byte {P : Byte → Prop} (h : ∀ n, n < 256 → P (UInt8.ofNat n)) (b : Byte) : P b := by
  have := h b.toNat b.toNat_lt
  simpa using this

theorem decimal_digits (b : Byte) : ∀ d ∈ decimal b, 48 ≤ d ∧ d ≤ 57 := by
  -- As a Boolean, such that the digits are not looked for among all bytes.
  have hall : ((decimal b).all fun d => 48 ≤ d && d ≤ 57) = true := by
    revert b
    apply forall_byte
    decide +kernel
  simpa using hall

theorem length_decimal (b : Byte) : (decimal b).length ≤ 3 := by
  unfold decimal
  split
  . simp
  . split <;> simp

theorem ofDecimal_decimal (b : Byte) : ofDecimal (decimal b) = some b := by
  revert b
  apply forall_byte
  decide +kernel

theorem ofHexDigit_hexDigit (b : Byte)
    : ofHexDigit (hexDigit (b / 16)) = some (b / 16) ∧ ofHexDigit (hexDigit (b % 16)) = some (b % 16)
      ∧ 16 * (b / 16) + b % 16 = b := by
  revert b
  apply forall_byte
  decide +kernel

theorem hexDigit_ne (b : Byte)
    : hexDigit (b / 16) ≠ 0 ∧ hexDigit (b / 16) ≠ 58 ∧ hexDigit (b % 16) ≠ 0
      ∧ hexDigit (b % 16) ≠ 58 := by
  revert b
  apply forall_byte
  decide +kernel

theorem mem_intercalate {x b : Byte} {ls : List (List Byte)} (h : b ∈ [x].intercalate ls)
    : b = x ∨ ∃ l ∈ ls, b ∈ l := by
  induction ls with
  | nil => simp at h
  | cons l ls ih =>
    cases ls with
    | nil =>
      rw [List.intercalate_singleton] at h
      exact .inr ⟨l, by simp, h⟩
    | cons l' ls =>
      rw [List.intercalate_cons_cons] at h
      simp only [List.append_assoc, List.mem_append, List.mem_singleton] at h
      rcases h with h | h | h
      . exact .inr ⟨l, by simp, h⟩
      . exact .inl h
      . rcases ih h with h | ⟨l'', hl'', h⟩
        . exact .inl h
        . exact .inr ⟨l'', List.mem_cons_of_mem _ hl'', h⟩

theorem length_intercalate_le {x : Byte} {ls : List (List Byte)} {k : Nat}
    (h : ∀ l ∈ ls, l.length ≤ k)
    : ([x].intercalate ls).length ≤ ls.length * (k + 1) := by
  induction ls with
  | nil => simp
  | cons l ls ih =>
    have hl := h l (by simp)
    have ih := ih fun l hl => h l (List.mem_cons_of_mem _ hl)
    cases ls with
    | nil =>
      rw [List.intercalate_singleton]
      simp only [List.length_cons, List.length_nil]
      omega
    | cons l' ls =>
      rw [List.intercalate_cons_cons]
      simp only [List.length_append, List.length_cons, List.length_nil, Nat.add_mul] at ih ⊢
      omega

theorem ofOctets_decimal (bs : List Byte) : ofOctets (bs.map decimal) = some bs := by
  induction bs with
  | nil => rfl
  | cons b bs ih => simp [ofOctets, ofDecimal_decimal, ih]

theorem ofHexGroup_hexGroup (a b : Byte) : ofHexGroup (hexGroup a b) = some [a, b] := by
  obtain ⟨ha, ha', heqa⟩ := ofHexDigit_hexDigit a
  obtain ⟨hb, hb', heqb⟩ := ofHexDigit_hexDigit b
  simp [ofHexGroup, hexGroup, ha, ha', hb, hb', heqa, heqb]

theorem ofGroups_groups (bs : List Byte) (h : bs.length % 2 = 0) : ofGroups (groups bs) = some bs := by
  induction bs using groups.induct with
  | case1 a b bs ih =>
    have ih := ih (by simp only [List.length_cons] at h; omega)
    simp [groups, ofGroups, ofHexGroup_hexGroup, ih]
  | case2 bs hne =>
    match bs with
    | [] => rfl
    | [_] => simp at h
    | a :: b :: bs => exact absurd rfl (hne a b bs)

theorem mem_groups {bs g : List Byte} (h : g ∈ groups bs) : ∃ a b, g = hexGroup a b := by
  induction bs using groups.induct with
  | case1 a b bs ih =>
    rw [groups, List.mem_cons] at h
    rcases h with h | h
    . exact ⟨a, b, h⟩
    . exact ih h
  | case2 bs hne =>
    rw [groups] at h
    . simp at h
    . exact hne

theorem length_groups (bs : List Byte) : (groups bs).length = bs.length / 2 := by
  induction bs using groups.induct with
  | case1 a b bs ih =>
    simp only [groups, List.length_cons, ih]
    omega
  | case2 bs hne =>
    match bs with
    | [] => rfl
    | [_] => simp [groups]
    | a :: b :: bs => exact absurd rfl (hne a b bs)

/-- The texts of addresses in full, without the abbreviation of zeros. -/
def text : Inet where
  pton f t :=
    match f with
    | .inet => (ofOctets (t.bytes.splitOn 46)).bind (ofLength 4)
    | .inet6 => (ofGroups (t.bytes.splitOn 58)).bind (ofLength 16)
  ntop f addr := .ofBuf ([separator f].intercalate (parts f addr))

theorem mem_parts {f : Family} {addr : Bytes f.size} {part : List Byte}
    (h : part ∈ parts f addr)
    : part.length ≤ 4 ∧ (∀ d ∈ part, d ≠ 0 ∧ d ≠ separator f)
      ∧ (f = .inet → ∀ d ∈ part, 48 ≤ d ∧ d ≤ 57) := by
  cases f with
  | inet =>
    obtain ⟨b, -, rfl⟩ := List.mem_map.mp h
    have hdigits := decimal_digits b
    refine ⟨Nat.le_succ_of_le (length_decimal b), ?_, fun _ => hdigits⟩
    intro d hd
    obtain ⟨hle, -⟩ := hdigits d hd
    constructor
    . rintro rfl
      contradiction
    . rintro rfl
      contradiction
  | inet6 =>
    obtain ⟨a, b, rfl⟩ := mem_groups h
    have ha := hexDigit_ne a
    have hb := hexDigit_ne b
    simp [hexGroup, separator, ha, hb]

theorem bytes_ntop (f : Family) (addr : Bytes f.size)
    : (text.ntop f addr).bytes = [separator f].intercalate (parts f addr) := by
  apply CString.ofBuf_of_noNul
  intro h
  rcases mem_intercalate h with h | ⟨part, hpart, h⟩
  . cases f <;> contradiction
  . exact ((mem_parts hpart).2.1 0 h).1 rfl

theorem length_parts (f : Family) (addr : Bytes f.size)
    : 2 ≤ (parts f addr).length ∧ (parts f addr).length ≤ 8 := by
  obtain ⟨bs, hbs⟩ := addr
  cases f with
  | inet =>
    simp only [Family.size] at hbs
    simp [parts, hbs]
  | inet6 =>
    simp only [Family.size] at hbs
    simp [parts, length_groups, hbs]

theorem splitOn_ntop (f : Family) (addr : Bytes f.size)
    : (text.ntop f addr).bytes.splitOn (separator f) = parts f addr := by
  rw [bytes_ntop]
  apply List.splitOn_intercalate
  . intro part hpart hmem
    exact ((mem_parts hpart).2.1 _ hmem).2 rfl
  . intro hnil
    have := length_parts f addr
    simp [hnil] at this

theorem ofLength_val {n : Nat} (bs : Bytes n) : ofLength n bs.val = some bs := by
  rw [ofLength, dif_pos bs.property]
  rfl

theorem text_lawful : text.Lawful := by
  constructor
  case pton_ntop =>
    intro f addr
    have hsplit := splitOn_ntop f addr
    cases f with
    | inet =>
      simp only [separator, parts] at hsplit
      simp only [text] at hsplit ⊢
      rw [hsplit, ofOctets_decimal]
      exact ofLength_val addr
    | inet6 =>
      simp only [separator, parts] at hsplit
      simp only [text] at hsplit ⊢
      rw [hsplit, ofGroups_groups _ (by rw [addr.property]; rfl)]
      exact ofLength_val addr
  case ntop_inet =>
    intro addr b hb
    rw [bytes_ntop] at hb
    rcases mem_intercalate hb with h | ⟨part, hpart, h⟩
    . exact .inr h
    . exact .inl ((mem_parts hpart).2.2 rfl b h)
  case ntop_inet6 =>
    intro addr
    rw [bytes_ntop]
    obtain ⟨hlen, -⟩ := length_parts .inet6 addr
    match hparts : parts .inet6 addr, hlen with
    | g :: g' :: gs, _ =>
      rw [List.intercalate_cons_cons]
      simp [separator]
  case length_ntop =>
    intro f addr
    rw [bytes_ntop]
    obtain ⟨-, hlen⟩ := length_parts f addr
    have hshort : ∀ part ∈ parts f addr, part.length ≤ 4 := fun part h => (mem_parts h).1
    have hle := length_intercalate_le (x := separator f) hshort
    omega

end Inet

def localhost : CString :=
  .ofBuf [49, 50, 55, 46, 48, 46, 48, 46, 49]

end Xsocks
