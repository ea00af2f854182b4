import Mathlib.Data.List.Infix
import Xsocks.Lib.Chunks
import Xsocks.Protocol.Impl.Cipher

/-!
This module contains what the ciphers of `shadowsocks-libev` make of a stream that arrives in pieces: how
many bytes one call of `decrypt` gives back, and how much room it asks for in the buffer of its caller.
-/

namespace Xsocks

open Chunks

theorem chunkMlen_chunkLenBuf {n : Nat} (h : n ≤ CHUNK_SIZE_MASK)
    : chunkMlen (chunkLenBuf n) = n := by
  have hmask : CHUNK_SIZE_MASK = 2 ^ 14 - 1 := rfl
  have hand : n &&& CHUNK_SIZE_MASK = n := by
    rw [hmask, Nat.and_two_pow_sub_one_eq_mod]
    omega
  have hntohs : ntohs (.ofList 0 (htons n)) 0 = n := by
    simp only [ntohs, htons, Mem.ofList, List.getD_cons_zero, List.getD_cons_succ, Nat.zero_add,
      UInt8.toNat_ofNat']
    omega
  rw [chunkMlen, chunkLenBuf, hand, hntohs, hand]

theorem length_chunkLenBuf (n : Nat) : (chunkLenBuf n).length = CHUNK_SIZE_LEN := by
  rfl

variable {ε : Type}

namespace AeadCipher

def sealedLen (K : AeadCipher) (p : List Byte) : Nat :=
  2 * K.tagLen + CHUNK_SIZE_LEN + p.length

def completed (K : AeadCipher) (n : Nat) : List (List Byte) → List (List Byte)
  | [] => []
  | p :: ps => if K.sealedLen p ≤ n then p :: K.completed (n - K.sealedLen p) ps else []

def plainLen (K : AeadCipher) (ps : List (List Byte)) (n : Nat) : Nat :=
  (K.completed (n - K.keyLen) ps).flatten.length

inductive Chunked (K : AeadCipher) (skey : List Byte)
    : List Byte → List (List Byte) → List Byte → Prop where
  | nil (nonce : List Byte) : Chunked K skey nonce [] []
  | cons {nonce p len c : List Byte} {ps : List (List Byte)} {bytes : List Byte} (ne : p ≠ [])
      (le : p.length ≤ CHUNK_SIZE_MASK)
      (encryptLen : K.aeadCipherEncrypt skey nonce (chunkLenBuf p.length) = some len)
      (encrypt : K.aeadCipherEncrypt skey (sodiumIncrement nonce) p = some c)
      (rest : Chunked K skey (sodiumIncrement (sodiumIncrement nonce)) ps bytes)
      : Chunked K skey nonce (p :: ps) (len ++ c ++ bytes)

variable {K : AeadCipher}

section

variable {skey nonce : List Byte} {ps : List (List Byte)} {bytes : List Byte}

theorem completed_zero (ps : List (List Byte)) : K.completed 0 ps = [] := by
  cases ps with
  | nil => rfl
  | cons p ps => simp [completed, sealedLen, CHUNK_SIZE_LEN]

theorem completed_append {n : Nat} {done rest : List (List Byte)} (h : K.completed n (done ++ rest) = done)
    (k : Nat)
    : K.completed (n + k) (done ++ rest)
        = done ++ K.completed (n - (done.map K.sealedLen).sum + k) rest := by
  induction done generalizing n with
  | nil => simp
  | cons p done ih =>
    simp only [List.cons_append, completed] at h ⊢
    split at h
    . next hle =>
      rw [if_pos (by omega)]
      have heq : n + k - K.sealedLen p = n - K.sealedLen p + k := by omega
      rw [heq, ih (List.cons.inj h).2, List.map_cons, List.sum_cons, Nat.sub_sub]
    . contradiction

theorem sum_sealedLen_completed_le (n : Nat) (ps : List (List Byte))
    : ((K.completed n ps).map K.sealedLen).sum ≤ n := by
  induction ps generalizing n with
  | nil => simp [completed]
  | cons p ps ih =>
    unfold completed
    split
    . have := ih (n - K.sealedLen p)
      rw [List.map_cons, List.sum_cons]
      omega
    . simp

end

section

variable {ctx : CipherCtx ε} {p : List Byte} {ps : List (List Byte)} {bytes : List Byte}

theorem take_prefix_eq {l₁ l₂ : List Byte} (h : l₁ <+: l₂) {k : Nat} (hk : k ≤ l₁.length)
    : l₁.take k = l₂.take k := by
  obtain ⟨t, rfl⟩ := h
  rw [List.take_append_of_le_length hk]

theorem Chunked.decrypt_len (h : Chunked K ctx.skey ctx.nonce (p :: ps) bytes) (hc : ctx.chunk <+: bytes)
    (hlen : CHUNK_SIZE_LEN + K.tagLen ≤ ctx.chunk.length)
    : K.aeadCipherDecrypt ctx.skey ctx.nonce (ctx.chunk.take (CHUNK_SIZE_LEN + K.tagLen))
        = some (chunkLenBuf p.length) := by
  cases h with
  | cons ne le encryptLen encrypt rest =>
    next len c bytes =>
    have hlength := K.length_encrypt encryptLen
    rw [length_chunkLenBuf] at hlength
    rw [take_prefix_eq hc hlen, List.append_assoc, ← hlength, List.take_left]
    exact K.decrypt_encrypt encryptLen

theorem Chunked.needMore (h : Chunked K ctx.skey ctx.nonce (p :: ps) bytes) (hc : ctx.chunk <+: bytes)
    (hlt : ctx.chunk.length < K.sealedLen p)
    : aeadChunkDecrypt K ctx = (.CRYPTO_NEED_MORE, ctx) := by
  unfold aeadChunkDecrypt
  split
  . rfl
  . next hlen =>
    have hpos : p.length ≠ 0 ∧ p.length ≤ CHUNK_SIZE_MASK := by
      cases h with
      | cons ne le => exact ⟨by simpa using ne, le⟩
    rw [h.decrypt_len hc (by omega)]
    dsimp only
    rw [sealedLen] at hlt
    rw [chunkMlen_chunkLenBuf hpos.2, if_neg hpos.1, if_pos hlt]

theorem Chunked.decrypt (h : Chunked K ctx.skey ctx.nonce (p :: ps) bytes) (hc : ctx.chunk <+: bytes)
    (hle : K.sealedLen p ≤ ctx.chunk.length)
    : aeadChunkDecrypt K ctx = (.CRYPTO_OK p, { ctx with
        nonce := sodiumIncrement (sodiumIncrement ctx.nonce)
        chunk := ctx.chunk.drop (K.sealedLen p) }) := by
  have hlen := hle
  rw [sealedLen] at hlen
  have hdecrypt := h.decrypt_len hc (by omega)
  cases h with
  | cons ne le encryptLen encrypt rest =>
    next len c bytes =>
    have hlength := K.length_encrypt encryptLen
    have hlength' := K.length_encrypt encrypt
    rw [length_chunkLenBuf] at hlength
    have hpos : p.length ≠ 0 := by simpa using ne
    have hc' : (ctx.chunk.drop (CHUNK_SIZE_LEN + K.tagLen)).take (p.length + K.tagLen) = c := by
      rw [List.take_drop, take_prefix_eq hc (by omega), ← hlength, ← hlength', ← List.length_append,
        List.take_left, List.drop_left]
    unfold aeadChunkDecrypt
    rw [if_neg (by omega), hdecrypt]
    dsimp only
    rw [chunkMlen_chunkLenBuf le, if_neg hpos, if_neg (by omega), hc', K.decrypt_encrypt encrypt]
    rfl

structure Holds (K : AeadCipher) (ctx : CipherCtx ε) (ps : List (List Byte)) (bytes : List Byte)
    : Prop where
  chunked : Chunked K ctx.skey ctx.nonce ps bytes
  held : ctx.chunk <+: bytes

structure Advanced (K : AeadCipher) (ctx : CipherCtx ε) (done rest : List (List Byte)) (bytes : List Byte)
    (ctx' : CipherCtx ε) : Prop where
  init : ctx'.init = ctx.init
  salt : ctx'.salt = ctx.salt
  chunk : ctx'.chunk = ctx.chunk.drop (done.map K.sealedLen).sum
  holds : K.Holds ctx' rest (bytes.drop (done.map K.sealedLen).sum)

theorem advanced_nil (h : K.Holds ctx ps bytes) : K.Advanced ctx [] ps bytes ctx := by
  constructor
  case holds => simpa using h
  all_goals simp

theorem Holds.next (h : K.Holds ctx (p :: ps) bytes)
    : K.Holds { ctx with
        nonce := sodiumIncrement (sodiumIncrement ctx.nonce)
        chunk := ctx.chunk.drop (K.sealedLen p) } ps (bytes.drop (K.sealedLen p)) := by
  have hheld := h.held.drop (K.sealedLen p)
  refine ⟨?_, hheld⟩
  cases h.chunked with
  | cons ne le encryptLen encrypt rest =>
    next len c bytes =>
    have hlength : (len ++ c).length = K.sealedLen p := by
      have := K.length_encrypt encryptLen
      have := K.length_encrypt encrypt
      rw [length_chunkLenBuf] at *
      rw [List.length_append, sealedLen]
      omega
    rw [← hlength, List.drop_left]
    exact rest

theorem Holds.loop (h : K.Holds ctx ps bytes) (plaintext : List Byte) {rounds : Nat}
    (hrounds : ctx.chunk.length ≤ rounds)
    : ∃ ctx' rest, ps = K.completed ctx.chunk.length ps ++ rest
        ∧ K.Advanced ctx (K.completed ctx.chunk.length ps) rest bytes ctx'
        ∧ aeadDecrypt.loop K ctx plaintext rounds
          = (if ctx.chunk ≠ [] ∧ plaintext ++ (K.completed ctx.chunk.length ps).flatten = [] then
              .CRYPTO_NEED_MORE
            else .CRYPTO_OK (plaintext ++ (K.completed ctx.chunk.length ps).flatten), ctx') := by
  induction rounds generalizing ctx plaintext ps bytes with
  | zero =>
    have hchunk : ctx.chunk = [] := List.eq_nil_of_length_eq_zero (by omega)
    rw [hchunk, List.length_nil, completed_zero]
    exact ⟨ctx, ps, rfl, advanced_nil h, by simp [aeadDecrypt.loop]⟩
  | succ rounds ih =>
    by_cases hchunk : ctx.chunk = []
    . rw [hchunk, List.length_nil, completed_zero]
      exact ⟨ctx, ps, rfl, advanced_nil h, by simp [aeadDecrypt.loop, hchunk]⟩
    . cases ps with
      | nil =>
        have hheld := h.held
        cases h.chunked with
        | nil => simp [hchunk] at hheld
      | cons p ps =>
        rw [aeadDecrypt.loop, if_neg hchunk]
        by_cases hle : K.sealedLen p ≤ ctx.chunk.length
        . have hp : p ≠ [] := by
            cases h.chunked with
            | cons ne => exact ne
          have hcompleted : K.completed ctx.chunk.length (p :: ps)
              = p :: K.completed (ctx.chunk.drop (K.sealedLen p)).length ps := by
            rw [completed, if_pos hle, List.length_drop]
          have hpos : 0 < K.sealedLen p := by
            rw [sealedLen, CHUNK_SIZE_LEN]
            omega
          obtain ⟨ctx', rest, hps, hadv, hloop⟩ := ih h.next (plaintext ++ p)
            (by rw [List.length_drop]; omega)
          rw [hcompleted, h.chunked.decrypt h.held hle]
          refine ⟨ctx', rest, by rw [List.cons_append, ← hps], ?_, ?_⟩
          . refine ⟨hadv.init, hadv.salt, ?_, ?_⟩
            . rw [hadv.chunk, List.drop_drop, List.map_cons, List.sum_cons]
            . have hholds := hadv.holds
              rw [List.drop_drop] at hholds
              rwa [List.map_cons, List.sum_cons]
          . dsimp only
            rw [hloop]
            simp [hp]
        . have hcompleted : K.completed ctx.chunk.length (p :: ps) = [] := by
            rw [completed, if_neg hle]
          rw [hcompleted, h.chunked.needMore h.held (by omega)]
          refine ⟨ctx, p :: ps, rfl, advanced_nil h, ?_⟩
          simp only [ne_eq, hchunk, not_false_eq_true, List.flatten_nil, List.append_nil, true_and]
          split <;> rfl

structure Released (K : AeadCipher) (ctx : CipherCtx ε) (ps : List (List Byte)) (bytes : List Byte)
    (d : Decrypted (CipherCtx ε)) : Prop where
  demand : d.demand ≤ (K.completed ctx.chunk.length ps).flatten.length
  init : ∀ {plaintext}, d.res = .CRYPTO_OK plaintext → d.dCtx.init = 2
  plaintext : ∀ {plaintext}, d.res = .CRYPTO_OK plaintext
    → plaintext = (K.completed ctx.chunk.length ps).flatten
  advanced : ∀ {plaintext}, d.res = .CRYPTO_OK plaintext
    → ∃ rest, ps = K.completed ctx.chunk.length ps ++ rest
        ∧ d.dCtx.chunk = ctx.chunk.drop ((K.completed ctx.chunk.length ps).map K.sealedLen).sum
        ∧ K.Holds d.dCtx rest
            (bytes.drop ((K.completed ctx.chunk.length ps).map K.sealedLen).sum)

theorem Holds.chunks (h : K.Holds ctx ps bytes) (hinit : ctx.init = 1 ∨ ctx.init = 2)
    : K.Released ctx ps bytes (aeadDecrypt.chunks K ctx) := by
  obtain ⟨ctx', rest, hps, hadv, hloop⟩ := h.loop [] (Nat.le_refl _)
  rw [List.nil_append] at hloop
  unfold aeadDecrypt.chunks
  rw [hloop]
  by_cases hmore : ctx.chunk ≠ [] ∧ (K.completed ctx.chunk.length ps).flatten = []
  . rw [if_pos hmore]
    constructor <;> simp
  . rw [if_neg hmore]
    dsimp only
    rw [hadv.init]
    split
    . split
      . constructor <;> simp
      . constructor
        case demand => exact Nat.le_refl _
        case init => exact fun _ => rfl
        case plaintext =>
          intro plaintext heq
          exact (CryptoRes.CRYPTO_OK.inj heq).symm
        case advanced => exact fun _ => ⟨rest, hps, hadv.chunk, hadv.holds.chunked, hadv.holds.held⟩
    . next hne =>
      constructor
      case demand => exact Nat.le_refl _
      case init =>
        intro _ _
        rw [hadv.init]
        omega
      case plaintext =>
        intro plaintext heq
        exact (CryptoRes.CRYPTO_OK.inj heq).symm
      case advanced => exact fun _ => ⟨rest, hps, hadv.chunk, hadv.holds⟩

/--
What `decrypt` has made of the bytes `x` of a stream: nothing, or the chunks that are complete in them
have been given back.
-/
inductive Synced (K : AeadCipher) (ps : List (List Byte)) (bytes : List Byte)
    : List Byte → CipherCtx ε → Prop where
  | start {ctx : CipherCtx ε} (init : ctx.init = 0) (chunk : ctx.chunk = []) : Synced K ps bytes [] ctx
  | running {x : List Byte} {ctx : CipherCtx ε} {done rest : List (List Byte)} (init : ctx.init = 2)
      (le : K.keyLen ≤ x.length)
      (completed : K.completed (x.length - K.keyLen) ps = done) (append : ps = done ++ rest)
      (chunk : ctx.chunk = x.drop (K.keyLen + (done.map K.sealedLen).sum))
      (chunked : Chunked K ctx.skey ctx.nonce rest (bytes.drop (done.map K.sealedLen).sum))
      : Synced K ps bytes x ctx

theorem synced_first {salt data : List Byte} (hsalt : salt.length = K.keyLen)
    (hbytes : Chunked K (K.hkdf salt) (List.replicate K.nonceLen 0) ps bytes)
    (hinit : ctx.init = 0) (hchunk : ctx.chunk = []) (hdata : data <+: salt ++ bytes)
    : let d := aeadDecrypt K ctx data
      d.demand ≤ K.plainLen ps data.length
        ∧ ∀ plaintext, d.res = .CRYPTO_OK plaintext
          → plaintext.length = K.plainLen ps data.length ∧ K.Synced ps bytes data d.dCtx := by
  unfold aeadDecrypt
  simp only [hinit, hchunk, List.nil_append, ↓reduceIte]
  split
  . simp
  . next hlen =>
    split
    . simp
    . have htake : data.take K.keyLen = salt := by
        rw [take_prefix_eq hdata (by omega), ← hsalt, List.take_left]
      have hdrop : data.drop K.keyLen <+: bytes := by
        have := hdata.drop K.keyLen
        rwa [← hsalt, List.drop_left, hsalt] at this
      let ctx₁ : CipherCtx ε :=
        { aeadCipherCtxSetKey K { ctx with chunk := data, salt := data.take K.keyLen } with
          init := 1, chunk := data.drop K.keyLen }
      have hholds : K.Holds ctx₁ ps bytes := by
        refine ⟨?_, hdrop⟩
        rw [← htake] at hbytes
        exact hbytes
      have hlength : ctx₁.chunk.length = data.length - K.keyLen := List.length_drop
      obtain ⟨hdemand, hinit', hplain, hadvanced⟩ := hholds.chunks (.inl rfl)
      rw [hlength] at hdemand hplain hadvanced
      refine ⟨hdemand, ?_⟩
      intro plaintext heq
      obtain ⟨rest, hps, hchunk', hholds'⟩ := hadvanced heq
      refine ⟨by rw [hplain heq, plainLen], ?_⟩
      apply Synced.running (hinit' heq) (by omega) rfl hps
      . rw [hchunk', List.drop_drop]
      . exact hholds'.chunked

theorem synced_next {salt x data : List Byte} (hsalt : salt.length = K.keyLen)
    {done rest : List (List Byte)} (hinit : ctx.init = 2) (hle : K.keyLen ≤ x.length)
    (hcompleted : K.completed (x.length - K.keyLen) ps = done) (happend : ps = done ++ rest)
    (hchunk : ctx.chunk = x.drop (K.keyLen + (done.map K.sealedLen).sum))
    (hchunked : Chunked K ctx.skey ctx.nonce rest (bytes.drop (done.map K.sealedLen).sum))
    (hdata : x ++ data <+: salt ++ bytes)
    : let d := aeadDecrypt K ctx data
      d.demand ≤ K.plainLen ps (x.length + data.length) - K.plainLen ps x.length
        ∧ ∀ plaintext, d.res = .CRYPTO_OK plaintext
          → plaintext.length = K.plainLen ps (x.length + data.length) - K.plainLen ps x.length
            ∧ K.Synced ps bytes (x ++ data) d.dCtx := by
  have hsum : (done.map K.sealedLen).sum ≤ x.length - K.keyLen := by
    rw [← hcompleted]
    exact sum_sealedLen_completed_le _ _
  let ctx₁ : CipherCtx ε := { ctx with chunk := ctx.chunk ++ data }
  have hchunk₁ : ctx₁.chunk = (x ++ data).drop (K.keyLen + (done.map K.sealedLen).sum) := by
    rw [List.drop_append_of_le_length (by omega), ← hchunk]
  have hholds : K.Holds ctx₁ rest (bytes.drop (done.map K.sealedLen).sum) := by
    refine ⟨hchunked, ?_⟩
    have := hdata.drop (K.keyLen + (done.map K.sealedLen).sum)
    rwa [← hchunk₁, ← List.drop_drop, ← hsalt, List.drop_left] at this
  have hlength : ctx₁.chunk.length
      = x.length - K.keyLen - (done.map K.sealedLen).sum + data.length := by
    rw [hchunk₁, List.length_drop, List.length_append]
    omega
  -- the chunks that have been completed before and now
  have hall : K.completed (x.length + data.length - K.keyLen) ps
      = done ++ K.completed ctx₁.chunk.length rest := by
    have heq : x.length + data.length - K.keyLen = x.length - K.keyLen + data.length := by omega
    rw [heq, happend, completed_append (by rw [← happend, hcompleted]), ← hlength]
  have hplainLen : K.plainLen ps (x.length + data.length) - K.plainLen ps x.length
      = (K.completed ctx₁.chunk.length rest).flatten.length := by
    rw [plainLen, plainLen, hall, hcompleted, List.flatten_append, List.length_append]
    omega
  rw [hplainLen]
  have hdecrypt : aeadDecrypt K ctx data = aeadDecrypt.chunks K ctx₁ := by
    have hne : ctx.init ≠ 0 := by omega
    exact if_neg hne
  rw [hdecrypt]
  obtain ⟨hdemand, hinit', hplain, hadvanced⟩ := hholds.chunks (.inr hinit)
  refine ⟨hdemand, ?_⟩
  intro plaintext heq
  obtain ⟨rest', hrest, hchunk', hholds'⟩ := hadvanced heq
  refine ⟨by rw [hplain heq], ?_⟩
  have happend' : ps = (done ++ K.completed ctx₁.chunk.length rest) ++ rest' := by
    rw [List.append_assoc, ← hrest]
    exact happend
  apply Synced.running (hinit' heq) _ _ happend'
  . rw [hchunk', hchunk₁, List.drop_drop, List.map_append, List.sum_append, Nat.add_assoc]
  . have := hholds'.chunked
    rwa [List.drop_drop, ← List.sum_append, ← List.map_append] at this
  . rw [List.length_append]
    omega
  . rw [List.length_append]
    exact hall

theorem exists_of_aeadChunkEncrypt {ctx' : CipherCtx ε} {x : List Byte} (hp : p.length ≤ CHUNK_SIZE_MASK)
    (h : aeadChunkEncrypt K ctx p = some (x, ctx'))
    : ∃ len c, K.aeadCipherEncrypt ctx.skey ctx.nonce (chunkLenBuf p.length) = some len
        ∧ K.aeadCipherEncrypt ctx.skey (sodiumIncrement ctx.nonce) p = some c
        ∧ x = len ++ c
        ∧ ctx' = { ctx with nonce := sodiumIncrement (sodiumIncrement ctx.nonce) } := by
  have hplen : p.length % 2 ^ 16 = p.length := by
    rw [CHUNK_SIZE_MASK] at hp
    omega
  unfold aeadChunkEncrypt at h
  rw [hplen] at h
  dsimp only at h
  rw [List.take_length, if_neg (by omega)] at h
  split at h
  . contradiction
  . next len hlen =>
    split at h
    . contradiction
    . next c hc =>
      simp only [Option.some.injEq, Prod.mk.injEq] at h
      exact ⟨len, c, hlen, hc, h.1.symm, h.2.symm⟩

theorem length_le_of_encrypt (hp : p.length ≤ NET_IOBUF_LEN) {ctx' : CipherCtx ε} {ct : List Byte}
    (h : aeadEncrypt K ctx p = some (ct, ctx'))
    : p.length ≤ CHUNK_SIZE_MASK := by
  have hplen : p.length % 2 ^ 16 = p.length := by
    rw [NET_IOBUF_LEN] at hp
    omega
  have hchunk : ∀ {ctx : CipherCtx ε} {result}, aeadChunkEncrypt K ctx p = some result
      → p.length ≤ CHUNK_SIZE_MASK := by
    intro ctx result hresult
    unfold aeadChunkEncrypt at hresult
    dsimp only at hresult
    split at hresult
    . contradiction
    . omega
  unfold aeadEncrypt at h
  split at h
  . omega
  . split at h
    . split at h
      . contradiction
      . next heq => exact hchunk heq
    . exact hchunk h

theorem chunked_of_encodeAll {ctx' : CipherCtx ε} {ct : List Byte} (hinit : ctx.init ≠ 0)
    (hps : ∀ p ∈ ps, p ≠ [] ∧ p.length ≤ CHUNK_SIZE_MASK)
    (h : encodeAll (aeadEncrypt K) ctx ps = some (ct, ctx'))
    : Chunked K ctx.skey ctx.nonce ps ct := by
  induction ps generalizing ctx ct with
  | nil =>
    simp only [encodeAll, Option.some.injEq, Prod.mk.injEq] at h
    rw [← h.1]
    exact .nil _
  | cons p ps ih =>
    obtain ⟨hne, hle⟩ := hps p (by simp)
    obtain ⟨y, ctx₁, z, hp, hrest, rfl⟩ := exists_of_encodeAll_cons h
    rw [aeadEncrypt, if_neg (by simpa using hne), if_neg hinit] at hp
    obtain ⟨len, c, hlen, hc, rfl, rfl⟩ := exists_of_aeadChunkEncrypt hle hp
    apply Chunked.cons hne hle hlen hc
    exact ih (by exact hinit) (fun q hq => hps q (by simp [hq])) hrest

theorem chunked_of_encodeAll_cons {ctx' : CipherCtx ε} {ct : List Byte} (hinit : ctx.init = 0)
    (hps : ∀ q ∈ p :: ps, q ≠ [] ∧ q.length ≤ CHUNK_SIZE_MASK)
    (h : encodeAll (aeadEncrypt K) ctx (p :: ps) = some (ct, ctx'))
    : ∃ bytes, ct = ctx.salt ++ bytes
        ∧ Chunked K (K.hkdf ctx.salt) (List.replicate K.nonceLen 0) (p :: ps) bytes := by
  obtain ⟨hne, hle⟩ := hps p (by simp)
  obtain ⟨y, ctx₁, z, hp, hrest, rfl⟩ := exists_of_encodeAll_cons h
  rw [aeadEncrypt, if_neg (by simpa using hne), if_pos hinit] at hp
  split at hp
  . contradiction
  . next x ctx₂ hx =>
    simp only [Option.some.injEq, Prod.mk.injEq] at hp
    obtain ⟨len, c, hlen, hc, hx', hctx₂⟩ := exists_of_aeadChunkEncrypt hle hx
    have hchunked := chunked_of_encodeAll (by rw [← hp.2, hctx₂]; simp)
      (fun q hq => hps q (by simp [hq])) hrest
    refine ⟨x ++ z, ?_, ?_⟩
    . rw [← hp.1, hctx₂, List.append_assoc]
      rfl
    . rw [← hp.2, hctx₂] at hchunked
      rw [hx']
      exact .cons hne hle hlen hc hchunked

theorem exists_chunked {ctx' : CipherCtx ε} {ct : List Byte} (hinit : ctx.init = 0)
    (hps : ∀ p ∈ ps, p ≠ [] ∧ p.length ≤ CHUNK_SIZE_MASK)
    (h : encodeAll (aeadEncrypt K) ctx ps = some (ct, ctx'))
    : ∃ bytes, ct <+: ctx.salt ++ bytes
        ∧ Chunked K (K.hkdf ctx.salt) (List.replicate K.nonceLen 0) ps bytes := by
  cases ps with
  | nil =>
    simp only [encodeAll, Option.some.injEq, Prod.mk.injEq] at h
    exact ⟨[], by simp [← h.1], .nil _⟩
  | cons p ps =>
    obtain ⟨bytes, hct, hbytes⟩ := chunked_of_encodeAll_cons hinit hps h
    exact ⟨bytes, by rw [hct], hbytes⟩

end

end AeadCipher

namespace StreamCipher

inductive Synced (K : StreamCipher ε) : List Byte → CipherCtx ε → Prop where
  | start {ctx : CipherCtx ε} (init : ctx.init = 0) (chunk : ctx.chunk = []) : Synced K [] ctx
  | running {x : List Byte} {ctx : CipherCtx ε} (init : ctx.init ≠ 0) (le : K.nonceLen ≤ x.length)
      (counter : SALSA20 ≤ K.method
        → ctx.counter % SODIUM_BLOCK_SIZE = (x.length - K.nonceLen) % SODIUM_BLOCK_SIZE)
      : Synced K x ctx

variable {K : StreamCipher ε} {ctx : CipherCtx ε} {x data : List Byte}

def padding (K : StreamCipher ε) (ctx : CipherCtx ε) : Nat :=
  if SALSA20 ≤ K.method then ctx.counter % SODIUM_BLOCK_SIZE else 0

structure Updated (K : StreamCipher ε) (ctx : CipherCtx ε) (data : List Byte)
    (d : Decrypted (CipherCtx ε)) : Prop where
  demand : d.demand ≤ data.length + K.padding ctx
  length : ∀ {plaintext}, d.res = .CRYPTO_OK plaintext → plaintext.length = data.length
  init : ∀ {plaintext}, d.res = .CRYPTO_OK plaintext → d.dCtx.init ≠ 0
  counter : ∀ {plaintext}, d.res = .CRYPTO_OK plaintext → SALSA20 ≤ K.method
    → d.dCtx.counter = (ctx.counter + data.length) % 2 ^ 64

theorem updated_finish {ctx' : CipherCtx ε} {plaintext : List Byte} {demand : Nat}
    (hlength : plaintext.length = data.length) (hdemand : demand ≤ data.length + K.padding ctx)
    (hinit : ctx'.init ≠ 0)
    (hcounter : SALSA20 ≤ K.method → ctx'.counter = (ctx.counter + data.length) % 2 ^ 64)
    : K.Updated ctx data (streamDecrypt.finish K ctx' plaintext demand) := by
  have hmax : max demand plaintext.length ≤ data.length + K.padding ctx := by omega
  unfold streamDecrypt.finish
  split
  . split
    . constructor
      case demand => exact hdemand
      all_goals simp
    . constructor
      case demand => exact hmax
      case length =>
        intro p heq
        rw [← CryptoRes.CRYPTO_OK.inj heq]
        exact hlength
      case init => simp
      case counter => exact fun _ => hcounter
  . constructor
    case demand => exact hmax
    case length =>
      intro p heq
      rw [← CryptoRes.CRYPTO_OK.inj heq]
      exact hlength
    case init => exact fun _ => hinit
    case counter => exact fun _ => hcounter

theorem updated_update (hinit : ctx.init ≠ 0) : K.Updated ctx data (streamDecrypt.update K ctx data) := by
  unfold streamDecrypt.update
  split
  . constructor <;> simp
  . split
    . next hmethod =>
      have hpadding : K.padding ctx = ctx.counter % SODIUM_BLOCK_SIZE := if_pos hmethod
      apply updated_finish
      case hlength =>
        simp only [List.length_drop, K.length_xor, List.length_append, List.length_replicate]
        omega
      case hdemand =>
        rw [hpadding]
        split <;> omega
      case hinit => exact hinit
      case hcounter => exact fun _ => rfl
    . next hmethod =>
      split
      . constructor <;> simp
      . next plaintext evp hupdate =>
        apply updated_finish (K.length_update hupdate) (Nat.zero_le _)
        . exact hinit
        . exact fun h => absurd h hmethod

theorem Synced.decrypt (h : K.Synced x ctx) {bufLen : Nat} (hle : data.length ≤ bufLen)
    (hroom : SALSA20 ≤ K.method → K.nonceLen ≤ x.length
      → (x.length - K.nonceLen) % SODIUM_BLOCK_SIZE ≠ 0
      → data.length + (x.length - K.nonceLen) % SODIUM_BLOCK_SIZE ≤ bufLen)
    : let d := streamDecrypt K ctx data
      d.demand ≤ bufLen
        ∧ ∀ plaintext, d.res = .CRYPTO_OK plaintext
          → plaintext.length ≤ bufLen ∧ K.Synced (x ++ data) d.dCtx := by
  cases h with
  | start init chunk =>
    unfold streamDecrypt
    simp only [init, chunk, ↓reduceIte, List.length_nil, Nat.sub_zero, List.nil_append,
      List.length_take]
    split
    . simp
    . next hlen =>
      have hmin : min K.nonceLen data.length = K.nonceLen := by omega
      rw [hmin]
      split
      . simp
      . let ctx₁ : CipherCtx ε := { ctx with
          chunk := data.take K.nonceLen, nonce := data.take K.nonceLen
          evp := K.cipherCtxSetNonce (data.take K.nonceLen), counter := 0, init := 1 }
        have hpadding : K.padding ctx₁ = 0 := by
          unfold padding
          split <;> rfl
        have hupdated : K.Updated ctx₁ (data.drop K.nonceLen)
            (streamDecrypt.update K ctx₁ (data.drop K.nonceLen)) := updated_update (by simp [ctx₁])
        have hdemand := hupdated.demand
        rw [hpadding, List.length_drop] at hdemand
        refine ⟨Nat.le_trans hdemand (by omega), ?_⟩
        intro plaintext heq
        have hlength := hupdated.length heq
        rw [List.length_drop] at hlength
        refine ⟨by omega, .running (hupdated.init heq) (by omega) ?_⟩
        intro hmethod
        have hcounter : ctx₁.counter = 0 := rfl
        rw [hupdated.counter heq hmethod, hcounter, List.length_drop, SODIUM_BLOCK_SIZE]
        omega
  | running init le counter =>
    have hdecrypt : streamDecrypt K ctx data = streamDecrypt.update K ctx data := if_neg init
    rw [hdecrypt]
    have hupdated : K.Updated ctx data (streamDecrypt.update K ctx data) := updated_update init
    have hdemand := hupdated.demand
    have hpadding : data.length + K.padding ctx ≤ bufLen := by
      unfold padding
      split
      . next hmethod =>
        have hroom := hroom hmethod le
        rw [counter hmethod]
        omega
      . omega
    refine ⟨Nat.le_trans hdemand hpadding, ?_⟩
    intro plaintext heq
    have hlength := hupdated.length heq
    refine ⟨by omega, .running (hupdated.init heq) (by rw [List.length_append]; omega) ?_⟩
    intro hmethod
    have hcounter := counter hmethod
    rw [hupdated.counter heq hmethod, List.length_append]
    rw [SODIUM_BLOCK_SIZE] at *
    omega

end StreamCipher

namespace Cipher

/--
`ct` is what a peer sends for the plaintexts `ps`. For an AEAD cipher these are chunks of the length that
its specification allows.
-/
def Sends (K : Cipher ε) (ps : List (List Byte)) (ct : List Byte) : Prop :=
  ∃ eCtx eCtx', eCtx.init = 0 ∧ encodeAll (cryptoInit K).encrypt eCtx ps = some (ct, eCtx')
    ∧ match K with
      | .aead K =>
        eCtx.salt.length = K.keyLen ∧ ∀ p ∈ ps, p ≠ [] ∧ p.length ≤ CHUNK_SIZE_MASK
      | .stream K => eCtx.nonce.length = K.nonceLen

/--
There is room for what comes out of `n` bytes that arrive after the first `received` bytes of a stream:
for the chunks that end in them, or for the padding up to the last block of the key stream.
-/
def Room (K : Cipher ε) (ps : List (List Byte)) (received n bufLen : Nat) : Prop :=
  match K with
  | .aead K => K.plainLen ps (received + n) ≤ K.plainLen ps received + bufLen
  | .stream K =>
    SALSA20 ≤ K.method → K.nonceLen ≤ received
      → (received - K.nonceLen) % SODIUM_BLOCK_SIZE ≠ 0
      → n + (received - K.nonceLen) % SODIUM_BLOCK_SIZE ≤ bufLen

instance (K : Cipher ε) (ps : List (List Byte)) (received n bufLen : Nat)
    : Decidable (K.Room ps received n bufLen) :=
  match K with
  | .aead _ => inferInstanceAs (Decidable (_ ≤ _))
  | .stream _ => inferInstanceAs (Decidable (_ → _ → _ → _))

def Synced (K : Cipher ε) (ps : List (List Byte)) (ct x : List Byte) (ctx : CipherCtx ε) : Prop :=
  match K with
  | .aead K => ∃ salt bytes, salt.length = K.keyLen ∧ ct <+: salt ++ bytes
    ∧ K.Chunked (K.hkdf salt) (List.replicate K.nonceLen 0) ps bytes ∧ K.Synced ps bytes x ctx
  | .stream K => K.Synced x ctx

variable {K : Cipher ε} {ps : List (List Byte)} {ct x data : List Byte} {ctx : CipherCtx ε}

theorem Sends.synced (h : K.Sends ps ct) (hinit : ctx.init = 0) (hchunk : ctx.chunk = [])
    : K.Synced ps ct [] ctx := by
  obtain ⟨eCtx, eCtx', hfresh, hencode, hK⟩ := h
  cases K with
  | aead K =>
    obtain ⟨bytes, hct, hbytes⟩ := AeadCipher.exists_chunked hfresh hK.2 hencode
    exact ⟨eCtx.salt, bytes, hK.1, hct, hbytes, .start hinit hchunk⟩
  | stream K => exact .start hinit hchunk

theorem Synced.decrypt (h : K.Synced ps ct x ctx) (hx : x ++ data <+: ct) {bufLen : Nat}
    (hle : data.length ≤ bufLen) (hroom : K.Room ps x.length data.length bufLen)
    : let d := (cryptoInit K).decrypt ctx data
      d.demand ≤ bufLen
        ∧ ∀ plaintext, d.res = .CRYPTO_OK plaintext
          → plaintext.length ≤ bufLen ∧ K.Synced ps ct (x ++ data) d.dCtx := by
  cases K with
  | aead K =>
    obtain ⟨salt, bytes, hsalt, hct, hbytes, hsynced⟩ := h
    have hdata := hx.trans hct
    simp only [Room] at hroom
    have hroom' : K.plainLen ps (x.length + data.length) - K.plainLen ps x.length ≤ bufLen := by omega
    cases hsynced with
    | start init chunk =>
      have hzero : K.plainLen ps 0 = 0 := by
        rw [AeadCipher.plainLen, Nat.zero_sub, AeadCipher.completed_zero]
        rfl
      rw [List.nil_append] at hdata
      obtain ⟨hdemand, hok⟩ := AeadCipher.synced_first hsalt hbytes init chunk hdata
      rw [List.length_nil, Nat.zero_add, hzero, Nat.sub_zero] at hroom'
      refine ⟨Nat.le_trans hdemand hroom', ?_⟩
      intro plaintext heq
      obtain ⟨hlength, hsynced⟩ := hok plaintext heq
      exact ⟨by omega, salt, bytes, hsalt, hct, hbytes, hsynced⟩
    | running init le completed append chunk chunked =>
      obtain ⟨hdemand, hok⟩ :=
        AeadCipher.synced_next hsalt init le completed append chunk chunked hdata
      refine ⟨Nat.le_trans hdemand hroom', ?_⟩
      intro plaintext heq
      obtain ⟨hlength, hsynced⟩ := hok plaintext heq
      exact ⟨by omega, salt, bytes, hsalt, hct, hbytes, hsynced⟩
  | stream K => exact StreamCipher.Synced.decrypt h hle hroom

theorem exists_room (K : Cipher ε) (ps : List (List Byte)) (received n : Nat)
    : ∃ bufLen, n ≤ bufLen ∧ K.Room ps received n bufLen := by
  cases K with
  | aead K =>
    refine ⟨n + K.plainLen ps (received + n), by omega, ?_⟩
    rw [Room]
    omega
  | stream K =>
    refine ⟨n + SODIUM_BLOCK_SIZE, by omega, ?_⟩
    intro _ _ _
    rw [SODIUM_BLOCK_SIZE]
    omega

end Cipher

/-- An AEAD cipher whose key stream and tags are zero, with the lengths of aes-256-gcm. -/
def AeadCipher.zero : AeadCipher where
  nonceLen := 12
  keyLen := 32
  tagLen := 16
  hkdf salt := salt
  aeadCipherEncrypt _ _ m := some (m ++ List.replicate 16 0)
  aeadCipherDecrypt _ _ c :=
    if c.drop (c.length - 16) = List.replicate 16 0 then some (c.take (c.length - 16)) else none
  ppbloomCheck _ := false
  length_encrypt h := by
    rw [← Option.some.inj h, List.length_append, List.length_replicate]
  length_decrypt {_ _ c m} h := by
    split at h
    . next heq =>
      have hlength := congrArg List.length heq
      rw [List.length_drop, List.length_replicate] at hlength
      rw [← Option.some.inj h, List.length_take]
      omega
    . contradiction
  decrypt_encrypt {_ _ m c} h := by
    have hlength : (m ++ List.replicate 16 (0 : Byte)).length - 16 = m.length := by simp
    rw [← Option.some.inj h, hlength, if_pos List.drop_left, List.take_left]

/-- A stream cipher whose key stream is zero, with the lengths of chacha20. -/
def StreamCipher.zero : StreamCipher Unit where
  method := SALSA20 + 1
  nonceLen := 8
  cipherCtxSetNonce _ := ()
  cipherCtxUpdate evp input := some (input, evp)
  cryptoStreamXorIc _ _ m := m
  ppbloomCheck _ := false
  length_update h := by
    simp only [Option.some.injEq, Prod.mk.injEq] at h
    rw [h.1]
  length_xor _ _ _ := rfl

/-- A context after `ctx_init`, with the nonce or the salt that it will use to encrypt. -/
def CipherCtx.new (iv : List Byte) : CipherCtx Unit :=
  ⟨0, 0, (), [], iv, [], iv⟩

end Xsocks
