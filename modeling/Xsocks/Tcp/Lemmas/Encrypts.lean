import Xsocks.Tcp.Lemmas.KeyStream

/-!
This module contains the plaintexts that the two kinds of ciphers take: those of an AEAD cipher are chunks of at
most `CHUNK_SIZE_MASK` bytes, while a stream cipher takes everything.
-/

namespace Xsocks

open Chunks

variable {κ ε : Type}

namespace Crypto

def Reached (C : Crypto κ) (eCtx₀ eCtx : κ) : Prop :=
  ∃ ps ct, encodeAll C.encrypt eCtx₀ ps = some (ct, eCtx)

/--
From `eCtx₀` on, `encrypt` takes plaintexts of up to `limit` bytes, and no longer ones that fit into a buffer. The
ciphertext is neither shorter than the plaintext nor longer than `room`.
-/
structure Encrypts (C : Crypto κ) (eCtx₀ : κ) (limit room : Nat) : Prop where
  header : SOCKS5_ADDR_MAX_LEN ≤ limit
  takes : ∀ {eCtx plaintext}, C.Reached eCtx₀ eCtx → plaintext.length ≤ limit
    → ∃ ct eCtx', C.encrypt eCtx plaintext = some (ct, eCtx') ∧ plaintext.length ≤ ct.length ∧ ct.length ≤ room
  refuses : ∀ {eCtx plaintext}, C.Reached eCtx₀ eCtx → limit < plaintext.length → plaintext.length ≤ NET_IOBUF_LEN
    → C.encrypt eCtx plaintext = none

variable {C : Crypto κ} {eCtx₀ eCtx eCtx' : κ} {plaintext ct : List Byte}

theorem reached_refl : C.Reached eCtx₀ eCtx₀ :=
  ⟨[], [], rfl⟩

theorem Reached.encrypt (h : C.Reached eCtx₀ eCtx) (hct : C.encrypt eCtx plaintext = some (ct, eCtx'))
    : C.Reached eCtx₀ eCtx' := by
  obtain ⟨ps, x, hx⟩ := h
  exact ⟨ps ++ [plaintext], x ++ ct, encodeAll_concat hx hct⟩

theorem Reached.proj_eq {α : Type} (h : C.Reached eCtx₀ eCtx) (f : κ → α)
    (hstep : ∀ {c c' p x}, C.encrypt c p = some (x, c') → f c' = f c)
    : f eCtx = f eCtx₀ := by
  obtain ⟨ps, ct, hct⟩ := h
  induction ps generalizing eCtx₀ ct with
  | nil =>
    simp only [encodeAll, Option.some.injEq, Prod.mk.injEq] at hct
    rw [hct.2]
  | cons p ps ih =>
    obtain ⟨y, c', z, hp, hrest, -⟩ := exists_of_encodeAll_cons hct
    rw [ih z hrest, hstep hp]

theorem encrypts_copy : Crypto.copy.Encrypts () NET_IOBUF_LEN NET_IOBUF_LEN where
  header := by decide
  takes {eCtx plaintext} _ hle := ⟨plaintext, eCtx, rfl, Nat.le_refl _, hle⟩
  refuses _ hlt hle := by omega

end Crypto

namespace AeadCipher

variable {K : AeadCipher} {ctx ctx' : CipherCtx ε} {p ct : List Byte}

theorem salt_of_aeadChunkEncrypt (h : aeadChunkEncrypt K ctx p = some (ct, ctx')) : ctx'.salt = ctx.salt := by
  unfold aeadChunkEncrypt at h
  dsimp only at h
  split at h
  . contradiction
  . split at h
    . contradiction
    . split at h
      . contradiction
      . rw [← (Prod.mk.inj (Option.some.inj h)).2]

theorem salt_of_aeadEncrypt (h : aeadEncrypt K ctx p = some (ct, ctx')) : ctx'.salt = ctx.salt := by
  unfold aeadEncrypt at h
  split at h
  . rw [← (Prod.mk.inj (Option.some.inj h)).2]
  . split at h
    . split at h
      . contradiction
      . next heq =>
        have hsalt := salt_of_aeadChunkEncrypt heq
        rw [← (Prod.mk.inj (Option.some.inj h)).2, hsalt]
        rfl
    . exact salt_of_aeadChunkEncrypt h

theorem exists_aeadChunkEncrypt (htotal : ∀ skey nonce m, (K.aeadCipherEncrypt skey nonce m).isSome)
    (hp : p.length ≤ CHUNK_SIZE_MASK) (ctx : CipherCtx ε)
    : ∃ ct ctx', aeadChunkEncrypt K ctx p = some (ct, ctx') ∧ ct.length = K.sealedLen p := by
  have hplen : p.length % 2 ^ 16 = p.length := by
    rw [CHUNK_SIZE_MASK] at hp
    omega
  obtain ⟨len, hlen⟩ := Option.isSome_iff_exists.mp (htotal ctx.skey ctx.nonce (chunkLenBuf p.length))
  obtain ⟨c, hc⟩ := Option.isSome_iff_exists.mp (htotal ctx.skey (sodiumIncrement ctx.nonce) p)
  have hlength := K.length_encrypt hlen
  have hlength' := K.length_encrypt hc
  rw [length_chunkLenBuf] at hlength
  refine ⟨len ++ c, { ctx with nonce := sodiumIncrement (sodiumIncrement ctx.nonce) }, ?_, ?_⟩
  . unfold aeadChunkEncrypt
    dsimp only
    rw [hplen, List.take_length, if_neg (by omega), hlen]
    dsimp only
    rw [hc]
  . rw [List.length_append, sealedLen]
    omega

theorem exists_aeadEncrypt (htotal : ∀ skey nonce m, (K.aeadCipherEncrypt skey nonce m).isSome)
    (hp : p.length ≤ CHUNK_SIZE_MASK) (ctx : CipherCtx ε)
    : ∃ ct ctx', aeadEncrypt K ctx p = some (ct, ctx') ∧ p.length ≤ ct.length
        ∧ ct.length ≤ ctx.salt.length + K.sealedLen p := by
  unfold aeadEncrypt
  split
  . exact ⟨p, ctx, rfl, Nat.le_refl _, by rw [sealedLen]; omega⟩
  . split
    . obtain ⟨ct, ctx', heq, hlen⟩ :=
        exists_aeadChunkEncrypt htotal hp { aeadCipherCtxSetKey K ctx with init := 1 }
      rw [heq]
      refine ⟨ctx'.salt ++ ct, ctx', rfl, ?_, ?_⟩
      . rw [List.length_append, hlen, sealedLen]
        omega
      . rw [List.length_append, hlen, salt_of_aeadChunkEncrypt heq]
        exact Nat.le_refl _
    . obtain ⟨ct, ctx', heq, hlen⟩ := exists_aeadChunkEncrypt htotal hp ctx
      refine ⟨ct, ctx', heq, ?_, by omega⟩
      rw [hlen, sealedLen]
      omega

theorem encrypts (htotal : ∀ skey nonce m, (K.aeadCipherEncrypt skey nonce m).isSome) {eCtx₀ : CipherCtx ε}
    {room : Nat} (hroom : eCtx₀.salt.length + (2 * K.tagLen + CHUNK_SIZE_LEN + CHUNK_SIZE_MASK) ≤ room)
    : (cryptoInit (.aead K)).Encrypts eCtx₀ CHUNK_SIZE_MASK room where
  header := by decide
  takes {eCtx plaintext} hreached hle := by
    have hsalt := hreached.proj_eq CipherCtx.salt salt_of_aeadEncrypt
    obtain ⟨ct, eCtx', heq, hge, hlen⟩ := exists_aeadEncrypt htotal hle eCtx
    refine ⟨ct, eCtx', heq, hge, ?_⟩
    rw [hsalt, sealedLen] at hlen
    omega
  refuses {eCtx plaintext} _ hlt hle := by
    apply Option.eq_none_iff_forall_not_mem.mpr
    intro result hresult
    have := length_le_of_encrypt hle hresult
    omega

end AeadCipher

namespace StreamCipher

variable {K : StreamCipher ε} {ctx ctx' : CipherCtx ε} {p ct : List Byte}

theorem exists_process (htotal : ∀ evp m, (K.cipherCtxUpdate evp m).isSome) (ctx : CipherCtx ε) (p : List Byte)
    : ∃ ct ctx', K.process ctx p = some (ct, ctx') ∧ ct.length = p.length ∧ ctx'.nonce = ctx.nonce := by
  have hsome : ∃ result, K.process ctx p = some result := by
    unfold process streamEncrypt.update
    split
    . exact ⟨_, rfl⟩
    . obtain ⟨result, hresult⟩ := Option.isSome_iff_exists.mp (htotal ctx.evp p)
      rw [hresult]
      exact ⟨_, rfl⟩
  obtain ⟨⟨ct, ctx'⟩, heq⟩ := hsome
  obtain ⟨hlen, hctx'⟩ := process_keeps heq
  exact ⟨ct, ctx', heq, hlen, by rw [hctx']⟩

theorem exists_streamEncrypt (htotal : ∀ evp m, (K.cipherCtxUpdate evp m).isSome) (ctx : CipherCtx ε)
    (p : List Byte)
    : ∃ ct ctx', streamEncrypt K ctx p = some (ct, ctx') ∧ p.length ≤ ct.length
        ∧ ct.length ≤ ctx.nonce.length + p.length ∧ ctx'.nonce = ctx.nonce := by
  by_cases hinit : ctx.init = 0
  . obtain ⟨ct, ctx', heq, hlen, hnonce⟩ := exists_process htotal (K.opened ctx) p
    refine ⟨ctx.nonce ++ ct, ctx', ?_, ?_, ?_, hnonce⟩
    . rw [streamEncrypt_of_init_eq_zero hinit, heq]
      rfl
    . rw [List.length_append]
      omega
    . rw [List.length_append]
      omega
  . obtain ⟨ct, ctx', heq, hlen, hnonce⟩ := exists_process htotal ctx p
    rw [streamEncrypt_of_init_ne_zero hinit]
    exact ⟨ct, ctx', heq, by omega, by omega, hnonce⟩

theorem encrypts (htotal : ∀ evp m, (K.cipherCtxUpdate evp m).isSome) {eCtx₀ : CipherCtx ε} {room : Nat}
    (hroom : eCtx₀.nonce.length + NET_IOBUF_LEN ≤ room)
    : (cryptoInit (.stream K)).Encrypts eCtx₀ NET_IOBUF_LEN room where
  header := by decide
  takes {eCtx plaintext} hreached hle := by
    have hnonce : eCtx.nonce = eCtx₀.nonce := by
      apply hreached.proj_eq
      intro c c' p x heq
      obtain ⟨ct, ctx', heq', -, -, hnonce⟩ := exists_streamEncrypt htotal c p
      have hctx := heq'.symm.trans heq
      rw [Option.some.injEq, Prod.mk.injEq] at hctx
      rw [← hctx.2, hnonce]
    obtain ⟨ct, eCtx', heq, hge, hlen, -⟩ := exists_streamEncrypt htotal eCtx plaintext
    rw [hnonce] at hlen
    exact ⟨ct, eCtx', heq, hge, by omega⟩
  refuses _ hlt hle := by omega

end StreamCipher

namespace Cipher

def Infallible : Cipher ε → Prop
  | .aead K => ∀ skey nonce m, (K.aeadCipherEncrypt skey nonce m).isSome
  | .stream K => ∀ evp m, (K.cipherCtxUpdate evp m).isSome

def plainMax : Cipher ε → Nat
  | .aead _ => CHUNK_SIZE_MASK
  | .stream _ => NET_IOBUF_LEN

def sealedMax (eCtx₀ : CipherCtx ε) : Cipher ε → Nat
  | .aead K => eCtx₀.salt.length + (2 * K.tagLen + CHUNK_SIZE_LEN + CHUNK_SIZE_MASK)
  | .stream _ => eCtx₀.nonce.length + NET_IOBUF_LEN

theorem encrypts {K : Cipher ε} (htotal : K.Infallible) {eCtx₀ : CipherCtx ε} {room : Nat}
    (hroom : K.sealedMax eCtx₀ ≤ room)
    : (cryptoInit K).Encrypts eCtx₀ K.plainMax room := by
  cases K with
  | aead K => exact AeadCipher.encrypts htotal hroom
  | stream K => exact StreamCipher.encrypts htotal hroom

end Cipher

end Xsocks
