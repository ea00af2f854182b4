import Mathlib.Algebra.Order.Ring.Int
import Xsocks.Protocol.Impl.Key

/-!
This module contains the round trip of `base64.c`, three bytes and four characters at a time.
-/

namespace Xsocks

def sextets : List Byte → List Nat
  | [] => []
  | [a] => [a.toNat / 4, a.toNat % 4 * 16]
  | [a, b] => [a.toNat / 4, a.toNat % 4 * 16 + b.toNat / 16, b.toNat % 16 * 4]
  | a :: b :: c :: rest =>
    a.toNat / 4 :: (a.toNat % 4 * 16 + b.toNat / 16) :: (b.toNat % 16 * 4 + c.toNat / 64) :: c.toNat % 64
      :: sextets rest

def sextetChar (d : Nat) : Byte :=
  b64.getD d 0

theorem map2At_sextetChar {d : Nat} (hd : d < 64) : sextetChar d ≠ 61 ∧ map2At (sextetChar d) = some d := by
  have hall : ∀ d : Fin 64, sextetChar d ≠ 61 ∧ map2At (sextetChar d) = some d.val := by decide +kernel
  exact hall ⟨d, hd⟩

theorem mem_of_map2At {ch : Byte} {d : Nat} (h : map2At ch = some d) : ch ∈ b64 := by
  have hall : ∀ p ∈ map2.zipIdx, p.1 ≠ 0xff → b64[p.1]? = some (UInt8.ofNat (p.2 + 43)) := by decide +kernel
  unfold map2At at h
  split at h
  . cases h
  . next hge =>
    split at h
    . cases h
    . next d' heq =>
      split at h
      . cases h
      . next hne =>
        have hch : ch.toNat - 43 + 43 = ch.toNat := Nat.sub_add_cancel (UInt8.le_iff_toNat_le.mp (UInt8.not_lt.mp hge))
        have hsome := hall _ (List.mk_mem_zipIdx_iff_getElem?.mpr heq) hne
        rw [hch, UInt8.ofNat_toNat] at hsome
        exact List.mem_of_getElem? hsome

theorem isSome_map2At_iff (ch : Byte) : (map2At ch).isSome ↔ ch ∈ b64 := by
  constructor
  . intro h
    obtain ⟨d, hd⟩ := Option.isSome_iff_exists.mp h
    exact mem_of_map2At hd
  . intro h
    have hall : ∀ ch ∈ b64, (map2At ch).isSome := by decide +kernel
    exact hall ch h

section

variable {outSize i v : Nat} {dst rest : List Byte}

theorem decode_loop_cons {d : Nat} (hd : d < 64)
    : base64Decode.loop outSize i v dst (sextetChar d :: rest)
      = base64Decode.loop outSize (i + 1) ((v * 2 ^ 6 + d) % 2 ^ 32)
        (if i % 4 ≠ 0 ∧ dst.length < outSize then
          dst ++ [UInt8.ofNat ((v * 2 ^ 6 + d) % 2 ^ 32 / 2 ^ (6 - 2 * (i % 4)))]
        else dst) rest := by
  obtain ⟨hne, heq⟩ := map2At_sextetChar hd
  rw [base64Decode.loop, if_neg hne, heq]
  dsimp only
  split
  . rfl
  . rfl

theorem decode_loop_first {d : Nat} (hd : d < 64) (hi : i % 4 = 0)
    : base64Decode.loop outSize i v dst (sextetChar d :: rest)
      = base64Decode.loop outSize (i + 1) ((v * 2 ^ 6 + d) % 2 ^ 32) dst rest := by
  rw [decode_loop_cons hd, if_neg fun hand => hand.1 hi]

theorem decode_loop_next {d k : Nat} (hd : d < 64) (hi : i % 4 = k) (hk : k ≠ 0)
    (hlen : dst.length < outSize) {b : Byte}
    (hb : (v * 2 ^ 6 + d) % 2 ^ 32 / 2 ^ (6 - 2 * k) % 2 ^ 8 = b.toNat)
    : base64Decode.loop outSize i v dst (sextetChar d :: rest)
      = base64Decode.loop outSize (i + 1) ((v * 2 ^ 6 + d) % 2 ^ 32) (dst ++ [b]) rest := by
  have hbyte : UInt8.ofNat ((v * 2 ^ 6 + d) % 2 ^ 32 / 2 ^ (6 - 2 * (i % 4))) = b := by
    rw [← UInt8.toNat_inj, UInt8.toNat_ofNat', hi, hb]
  rw [decode_loop_cons hd, if_pos ⟨by omega, hlen⟩, hbyte]

theorem decode_loop_pad (n : Nat) : base64Decode.loop outSize i v dst (List.replicate n 61) = some dst := by
  cases n with
  | zero => rfl
  | succ n => rw [List.replicate_succ, base64Decode.loop, if_pos rfl]

theorem decode_loop_sextets (bytes : List Byte) (n : Nat) (hi : i % 4 = 0) (hlen : dst.length + bytes.length ≤ outSize)
    : base64Decode.loop outSize i v dst ((sextets bytes).map sextetChar ++ List.replicate n 61)
      = some (dst ++ bytes) := by
  induction bytes using sextets.induct generalizing i v dst with
  | case1 =>
    rw [sextets, List.map_nil, List.nil_append, decode_loop_pad, List.append_nil]
  | case2 a =>
    have ha := a.toNat_lt
    rw [List.length_singleton] at hlen
    simp only [sextets, List.map_cons, List.map_nil, List.cons_append, List.nil_append]
    rw [decode_loop_first (by omega) hi, decode_loop_next (k := 1) (b := a) (by omega) (by omega) (by decide) (by omega)
      (by omega), decode_loop_pad]
  | case3 a b =>
    have ha := a.toNat_lt
    have hb := b.toNat_lt
    simp only [List.length_cons, List.length_nil] at hlen
    simp only [sextets, List.map_cons, List.map_nil, List.cons_append, List.nil_append]
    rw [decode_loop_first (by omega) hi, decode_loop_next (k := 1) (b := a) (by omega) (by omega) (by decide) (by omega)
      (by omega), decode_loop_next (k := 2) (b := b) (by omega) (by omega) (by decide)
      (by rw [List.length_append, List.length_singleton]; omega) (by omega), decode_loop_pad, List.append_assoc]
    rfl
  | case4 a b c rest ih =>
    have ha := a.toNat_lt
    have hb := b.toNat_lt
    have hc := c.toNat_lt
    simp only [List.length_cons] at hlen
    simp only [sextets, List.map_cons, List.cons_append]
    rw [decode_loop_first (by omega) hi, decode_loop_next (k := 1) (b := a) (by omega) (by omega) (by decide) (by omega)
      (by omega), decode_loop_next (k := 2) (b := b) (by omega) (by omega) (by decide)
      (by rw [List.length_append, List.length_singleton]; omega) (by omega),
      decode_loop_next (k := 3) (b := c) (by omega) (by omega) (by decide)
      (by simp only [List.length_append, List.length_singleton]; omega) (by omega),
      ih (by omega) (by simp only [List.length_append, List.length_singleton]; omega)]
    simp only [List.append_assoc, List.cons_append, List.nil_append]

end

section

variable {iBits n : Nat} {a b c d : Byte} {rest : List Byte}

def sextetAt (iBits shift : Nat) : Nat :=
  iBits * 2 ^ 6 % 2 ^ 32 / 2 ^ shift % 64

theorem emit_eight (iBits bytesRemaining n : Nat)
    : base64Encode.emit iBits bytesRemaining 8 (n + 2)
      = if bytesRemaining = 0 then ([sextetChar (sextetAt iBits 8), sextetChar (sextetAt iBits 2)], -4)
        else ([sextetChar (sextetAt iBits 8)], 2) := by
  by_cases h : bytesRemaining = 0
  . simp [base64Encode.emit, h, sextetChar, sextetAt]
  . simp [base64Encode.emit, h, sextetChar, sextetAt]

theorem emit_ten (iBits bytesRemaining : Nat)
    : base64Encode.emit iBits bytesRemaining 10 3
      = if bytesRemaining = 0 then ([sextetChar (sextetAt iBits 10), sextetChar (sextetAt iBits 4)], -2)
        else ([sextetChar (sextetAt iBits 10)], 4) := by
  by_cases h : bytesRemaining = 0
  . simp [base64Encode.emit, h, sextetChar, sextetAt]
  . simp [base64Encode.emit, h, sextetChar, sextetAt]

theorem emit_twelve (iBits bytesRemaining : Nat)
    : base64Encode.emit iBits bytesRemaining 12 3
      = if bytesRemaining = 0 then ([sextetChar (sextetAt iBits 12), sextetChar (sextetAt iBits 6)], 0)
        else ([sextetChar (sextetAt iBits 12)], 6) := by
  by_cases h : bytesRemaining = 0
  . simp [base64Encode.emit, h, sextetChar, sextetAt]
  . simp [base64Encode.emit, h, sextetChar, sextetAt]

theorem emit_fourteen (iBits bytesRemaining : Nat)
    : base64Encode.emit iBits bytesRemaining 14 3
      = let (dst, iShift) := base64Encode.emit iBits bytesRemaining 8 3
        (sextetChar (sextetAt iBits 14) :: dst, iShift) := by
  rw [emit_eight iBits bytesRemaining 1]
  have hround : base64Encode.emit iBits bytesRemaining 14 3
      = let (dst, iShift) := base64Encode.emit iBits bytesRemaining 8 2
        (sextetChar (sextetAt iBits 14) :: dst, iShift) := rfl
  rw [hround, emit_eight iBits bytesRemaining 0]

theorem encode_loop_pending (iBits : Nat) (d : Byte) (rest : List Byte)
    : base64Encode.loop iBits 6 (d :: rest)
      = sextetChar (iBits % 64) :: base64Encode.loop iBits 0 (d :: rest) := by
  have hd := d.toNat_lt
  have hbits : sextetAt ((iBits * 2 ^ 8 + d.toNat) % 2 ^ 32) 14 = iBits % 64 := by
    unfold sextetAt
    omega
  rw [base64Encode.loop, base64Encode.loop]
  dsimp only [Int.reduceAdd]
  rw [emit_fourteen, hbits]
  rfl

theorem encode_loop_one (iBits : Nat) (a : Byte)
    : base64Encode.loop iBits 0 [a] = (sextets [a]).map sextetChar := by
  have ha := a.toNat_lt
  have h₁ : sextetAt ((iBits * 2 ^ 8 + a.toNat) % 2 ^ 32) 8 = a.toNat / 4 := by
    unfold sextetAt
    omega
  have h₂ : sextetAt ((iBits * 2 ^ 8 + a.toNat) % 2 ^ 32) 2 = a.toNat % 4 * 16 := by
    unfold sextetAt
    omega
  rw [base64Encode.loop]
  dsimp only [Int.reduceAdd]
  rw [emit_eight _ _ 1, List.length_nil, if_pos rfl, h₁, h₂]
  rfl

theorem encode_loop_two (iBits : Nat) (a b : Byte)
    : base64Encode.loop iBits 0 [a, b] = (sextets [a, b]).map sextetChar := by
  have ha := a.toNat_lt
  have hb := b.toNat_lt
  have h₁ : sextetAt ((iBits * 2 ^ 8 + a.toNat) % 2 ^ 32) 8 = a.toNat / 4 := by
    unfold sextetAt
    omega
  have h₂ : sextetAt (((iBits * 2 ^ 8 + a.toNat) % 2 ^ 32 * 2 ^ 8 + b.toNat) % 2 ^ 32) 10
      = a.toNat % 4 * 16 + b.toNat / 16 := by
    unfold sextetAt
    omega
  have h₃ : sextetAt (((iBits * 2 ^ 8 + a.toNat) % 2 ^ 32 * 2 ^ 8 + b.toNat) % 2 ^ 32) 4 = b.toNat % 16 * 4 := by
    unfold sextetAt
    omega
  rw [base64Encode.loop]
  dsimp only [Int.reduceAdd]
  rw [emit_eight _ _ 1, if_neg (by simp), base64Encode.loop]
  dsimp only [Int.reduceAdd]
  rw [emit_ten, List.length_nil, if_pos rfl, h₁, h₂, h₃]
  rfl

theorem encode_loop_three (iBits : Nat) (a b c : Byte) (rest : List Byte)
    : ∃ iBits', base64Encode.loop iBits 0 (a :: b :: c :: rest)
      = (sextets [a, b, c]).map sextetChar ++ base64Encode.loop iBits' 0 rest := by
  have ha := a.toNat_lt
  have hb := b.toNat_lt
  have hc := c.toNat_lt
  have h₁ : sextetAt ((iBits * 2 ^ 8 + a.toNat) % 2 ^ 32) 8 = a.toNat / 4 := by
    unfold sextetAt
    omega
  have h₂ : sextetAt (((iBits * 2 ^ 8 + a.toNat) % 2 ^ 32 * 2 ^ 8 + b.toNat) % 2 ^ 32) 10
      = a.toNat % 4 * 16 + b.toNat / 16 := by
    unfold sextetAt
    omega
  generalize hbits : (((iBits * 2 ^ 8 + a.toNat) % 2 ^ 32 * 2 ^ 8 + b.toNat) % 2 ^ 32 * 2 ^ 8 + c.toNat) % 2 ^ 32 = bits
  have h₃ : sextetAt bits 12 = b.toNat % 16 * 4 + c.toNat / 64 := by
    unfold sextetAt
    omega
  have h₄ : sextetAt bits 6 = c.toNat % 64 := by
    unfold sextetAt
    omega
  refine ⟨bits, ?_⟩
  rw [base64Encode.loop]
  dsimp only [Int.reduceAdd]
  rw [emit_eight _ _ 1, if_neg (by simp), base64Encode.loop]
  dsimp only [Int.reduceAdd]
  rw [emit_ten, if_neg (by simp), base64Encode.loop]
  dsimp only [Int.reduceAdd]
  rw [emit_twelve, hbits, h₁, h₂, h₃]
  cases rest with
  | nil =>
    rw [List.length_nil, if_pos rfl, h₄]
    rfl
  | cons d rest =>
    have hlast : bits % 64 = c.toNat % 64 := by omega
    rw [if_neg (by simp)]
    dsimp only
    rw [encode_loop_pending, hlast]
    rfl

theorem encode_loop_eq (iBits : Nat) (bytes : List Byte)
    : base64Encode.loop iBits 0 bytes = (sextets bytes).map sextetChar := by
  induction bytes using sextets.induct generalizing iBits with
  | case1 => rfl
  | case2 a => exact encode_loop_one iBits a
  | case3 a b => exact encode_loop_two iBits a b
  | case4 a b c rest ih =>
    obtain ⟨iBits', heq⟩ := encode_loop_three iBits a b c rest
    rw [heq, ih]
    rfl

end

theorem length_sextets (bytes : List Byte)
    : (sextets bytes).length = bytes.length / 3 * 4 + if bytes.length % 3 = 0 then 0 else bytes.length % 3 + 1 := by
  induction bytes using sextets.induct with
  | case1 => rfl
  | case2 a => simp [sextets]
  | case3 a b => simp [sextets]
  | case4 a b c rest ih =>
    have hlen : (a :: b :: c :: rest).length = rest.length + 3 := by simp
    have hsextets : (sextets (a :: b :: c :: rest)).length = (sextets rest).length + 4 := by simp [sextets]
    rw [hsextets, ih, hlen, Nat.add_mod_right, Nat.add_div_right _ (by decide)]
    omega

theorem decode_loop_isSome_iff (outSize i v : Nat) (dst text : List Byte)
    : (base64Decode.loop outSize i v dst text).isSome ↔ ∀ ch ∈ text.takeWhile (· ≠ 61), ch ∈ b64 := by
  induction text generalizing i v dst with
  | nil => simp [base64Decode.loop]
  | cons ch rest ih =>
    rw [base64Decode.loop]
    by_cases hpad : ch = 61
    . rw [if_pos hpad, List.takeWhile_cons_of_neg (by simp [hpad])]
      simp
    . rw [if_neg hpad, List.takeWhile_cons_of_pos (by simp [hpad]), List.forall_mem_cons, ← isSome_map2At_iff]
      cases map2At ch with
      | none => simp
      | some d =>
        dsimp only
        split
        . rw [ih, Option.isSome_some, and_iff_right rfl]
        . rw [ih, Option.isSome_some, and_iff_right rfl]

theorem base64Decode_isSome_iff (text : List Byte) (outSize : Nat)
    : (base64Decode text outSize).isSome ↔ ∀ ch ∈ text.takeWhile (· ≠ 61), ch ∈ b64 :=
  decode_loop_isSome_iff outSize 0 0 [] text

/-- The text of a key has the documented size, it is decoded to the key, and it is taken for the key. -/
theorem base64_roundtrip {data : List Byte} {outSize : Nat} (hlen : data.length < UINT_MAX / 4)
    (hsize : BASE64_SIZE data.length ≤ outSize)
    : ∃ text, base64Encode outSize data = some text ∧ text.length + 1 = BASE64_SIZE data.length
        ∧ (∀ n, data.length ≤ n → base64Decode text n = some data)
        ∧ ∀ keyLen, keyLen ≤ data.length → data ≠ [] → cryptoParseKey text keyLen = some (data.take keyLen) := by
  have henc : base64Encode outSize data = some ((sextets data).map sextetChar
      ++ List.replicate ((4 - (sextets data).length % 4) % 4) 61) := by
    unfold base64Encode
    dsimp only
    rw [if_neg (by omega), encode_loop_eq, List.length_map]
  have hdecode : ∀ n, data.length ≤ n → base64Decode ((sextets data).map sextetChar
      ++ List.replicate ((4 - (sextets data).length % 4) % 4) 61) n = some data := by
    intro n hn
    exact decode_loop_sextets data _ rfl (by rw [List.length_nil]; omega)
  have htext : ((sextets data).map sextetChar ++ List.replicate ((4 - (sextets data).length % 4) % 4) 61).length + 1
      = BASE64_SIZE data.length := by
    rw [List.length_append, List.length_map, List.length_replicate, length_sextets, BASE64_SIZE]
    split
    . omega
    . omega
  refine ⟨_, henc, htext, hdecode, ?_⟩
  intro keyLen hkey hne
  have hpos := List.length_pos_iff.mpr hne
  unfold cryptoParseKey
  rw [hdecode _ (by unfold BASE64_SIZE at htext ⊢; omega)]
  exact if_pos ⟨hpos, hkey⟩

theorem base64_roundtrip_key
    : ∃ text, base64Encode 9 [1, 2, 255, 254] = some text ∧ text.length + 1 = 9
        ∧ (∀ n, 4 ≤ n → base64Decode text n = some [1, 2, 255, 254])
        ∧ ∀ keyLen, keyLen ≤ 4 → ([1, 2, 255, 254] : List Byte) ≠ []
          → cryptoParseKey text keyLen = some ([1, 2, 255, 254].take keyLen) :=
  base64_roundtrip (by decide) (by decide)

end Xsocks
