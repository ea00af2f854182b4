import Xsocks.Protocol.Impl.Crypto
import Xsocks.Protocol.Impl.Socks5

/-!
This module contains the ciphers of `deps/shadowsocks-libev`: the functions of `aead.c` and `stream.c` that
`crypto_init` puts into a `crypto_t`, over the primitives that they take from mbed TLS and libsodium.
-/

namespace Xsocks

def CHUNK_SIZE_LEN : Nat := 2
def CHUNK_SIZE_MASK : Nat := 0x3FFF
def SODIUM_BLOCK_SIZE : Nat := 64
def RC4_MD5 : Nat := 2
def SALSA20 : Nat := 18

/-- `cipher_ctx_t`. `ε` is the type of the mbed TLS context. -/
structure CipherCtx (ε : Type) where
  init : Nat
  counter : Nat
  evp : ε
  /-- `chunk->data[0..chunk->len)`, and nothing as long as `chunk` is `NULL`. -/
  chunk : List Byte
  salt : List Byte
  skey : List Byte
  nonce : List Byte
  deriving DecidableEq

/-- An AEAD cipher with its key. The lengths are what the assertions after each primitive check. -/
structure AeadCipher where
  nonceLen : Nat
  keyLen : Nat
  tagLen : Nat
  hkdf (salt : List Byte) : List Byte
  aeadCipherEncrypt (skey nonce m : List Byte) : Option (List Byte)
  aeadCipherDecrypt (skey nonce c : List Byte) : Option (List Byte)
  /-- The salt has been used before this connection used it. -/
  ppbloomCheck (salt : List Byte) : Bool
  length_encrypt : ∀ {skey nonce m c}, aeadCipherEncrypt skey nonce m = some c
    → c.length = m.length + tagLen
  length_decrypt : ∀ {skey nonce c m}, aeadCipherDecrypt skey nonce c = some m
    → c.length = m.length + tagLen
  decrypt_encrypt : ∀ {skey nonce m c}, aeadCipherEncrypt skey nonce m = some c
    → aeadCipherDecrypt skey nonce c = some m

/-- A stream cipher with its key. All of them encrypt byte by byte. -/
structure StreamCipher (ε : Type) where
  method : Nat
  nonceLen : Nat
  cipherCtxSetNonce (nonce : List Byte) : ε
  cipherCtxUpdate (evp : ε) (input : List Byte) : Option (List Byte × ε)
  cryptoStreamXorIc (nonce : List Byte) (ic : Nat) (m : List Byte) : List Byte
  /-- The nonce has been used before this connection used it. -/
  ppbloomCheck (nonce : List Byte) : Bool
  length_update : ∀ {evp evp' input output}, cipherCtxUpdate evp input = some (output, evp')
    → output.length = input.length
  length_xor : ∀ nonce ic m, (cryptoStreamXorIc nonce ic m).length = m.length

/-- Adds one to a number that is stored with its lowest byte first. -/
def sodiumIncrement : List Byte → List Byte
  | [] => []
  | b :: bs => if b = 255 then 0 :: sodiumIncrement bs else (b + 1) :: bs

variable {ε : Type}

def aeadCipherCtxSetKey (K : AeadCipher) (ctx : CipherCtx ε) : CipherCtx ε :=
  { ctx with skey := K.hkdf ctx.salt, nonce := List.replicate K.nonceLen 0 }

def chunkLenBuf (plen : Nat) : List Byte :=
  htons (plen &&& CHUNK_SIZE_MASK)

def chunkMlen (lenBuf : List Byte) : Nat :=
  ntohs (.ofList 0 lenBuf) 0 &&& CHUNK_SIZE_MASK

def aeadChunkEncrypt (K : AeadCipher) (ctx : CipherCtx ε) (p : List Byte)
    : Option (List Byte × CipherCtx ε) :=
  -- `plen` is a `uint16_t`
  let plen := p.length % 2 ^ 16
  -- the assertion, after which the program does not go on
  if CHUNK_SIZE_MASK < plen then none
  else
    match K.aeadCipherEncrypt ctx.skey ctx.nonce (chunkLenBuf plen) with
    | none => none
    | some len =>
      let nonce := sodiumIncrement ctx.nonce
      match K.aeadCipherEncrypt ctx.skey nonce (p.take plen) with
      | none => none
      | some c => some (len ++ c, { ctx with nonce := sodiumIncrement nonce })

def aeadEncrypt (K : AeadCipher) (cipherCtx : CipherCtx ε) (plaintext : List Byte)
    : Option (List Byte × CipherCtx ε) :=
  if plaintext.length = 0 then some (plaintext, cipherCtx)
  else if cipherCtx.init = 0 then
    match aeadChunkEncrypt K { aeadCipherCtxSetKey K cipherCtx with init := 1 } plaintext with
    | none => none
    | some (ciphertext, cipherCtx) => some (cipherCtx.salt ++ ciphertext, cipherCtx)
  else aeadChunkEncrypt K cipherCtx plaintext

/-- On success the chunk is taken off `ctx->chunk`. -/
def aeadChunkDecrypt (K : AeadCipher) (ctx : CipherCtx ε) : CryptoRes × CipherCtx ε :=
  if ctx.chunk.length ≤ 2 * K.tagLen + CHUNK_SIZE_LEN then (.CRYPTO_NEED_MORE, ctx)
  else
    match K.aeadCipherDecrypt ctx.skey ctx.nonce (ctx.chunk.take (CHUNK_SIZE_LEN + K.tagLen)) with
    | none => (.CRYPTO_ERROR, ctx)
    | some lenBuf =>
      let mlen := chunkMlen lenBuf
      let chunkLen := 2 * K.tagLen + CHUNK_SIZE_LEN + mlen
      if mlen = 0 then (.CRYPTO_ERROR, ctx)
      else if ctx.chunk.length < chunkLen then (.CRYPTO_NEED_MORE, ctx)
      else
        let nonce := sodiumIncrement ctx.nonce
        let c := (ctx.chunk.drop (CHUNK_SIZE_LEN + K.tagLen)).take (mlen + K.tagLen)
        match K.aeadCipherDecrypt ctx.skey nonce c with
        | none => (.CRYPTO_ERROR, { ctx with nonce := nonce })
        | some p =>
          (.CRYPTO_OK p,
            { ctx with nonce := sodiumIncrement nonce, chunk := ctx.chunk.drop chunkLen })

def aeadDecrypt (K : AeadCipher) (cipherCtx : CipherCtx ε) (ciphertext : List Byte)
    : Decrypted (CipherCtx ε) :=
  let ctx := { cipherCtx with chunk := cipherCtx.chunk ++ ciphertext }
  if ctx.init = 0 then
    if ctx.chunk.length ≤ K.keyLen then ⟨.CRYPTO_NEED_MORE, ctx, 0⟩
    else
      let ctx := aeadCipherCtxSetKey K { ctx with salt := ctx.chunk.take K.keyLen }
      if K.ppbloomCheck ctx.salt then ⟨.CRYPTO_ERROR, ctx, 0⟩
      else chunks { ctx with chunk := ctx.chunk.drop K.keyLen, init := 1 }
  else chunks ctx
where
  -- every round takes a chunk off, so there are at most as many as there are bytes
  loop (ctx : CipherCtx ε) (plaintext : List Byte) : Nat → CryptoRes × CipherCtx ε
    | 0 => (.CRYPTO_OK plaintext, ctx)
    | rounds + 1 =>
      if ctx.chunk = [] then (.CRYPTO_OK plaintext, ctx)
      else
        match aeadChunkDecrypt K ctx with
        | (.CRYPTO_ERROR, ctx) => (.CRYPTO_ERROR, ctx)
        | (.CRYPTO_NEED_MORE, ctx) =>
          if plaintext = [] then (.CRYPTO_NEED_MORE, ctx) else (.CRYPTO_OK plaintext, ctx)
        | (.CRYPTO_OK p, ctx) => loop ctx (plaintext ++ p) rounds
  chunks (ctx : CipherCtx ε) : Decrypted (CipherCtx ε) :=
    match loop ctx [] ctx.chunk.length with
    | (.CRYPTO_OK plaintext, ctx) =>
      if ctx.init = 1 then
        if K.ppbloomCheck ctx.salt then ⟨.CRYPTO_ERROR, ctx, 0⟩
        else ⟨.CRYPTO_OK plaintext, { ctx with init := 2 }, plaintext.length⟩
      else ⟨.CRYPTO_OK plaintext, ctx, plaintext.length⟩
    | (res, ctx) => ⟨res, ctx, 0⟩

def aeadEncryptAll (K : AeadCipher) (salt plaintext : List Byte) : Option (List Byte) :=
  match K.aeadCipherEncrypt (K.hkdf salt) (List.replicate K.nonceLen 0) plaintext with
  | none => none
  | some ciphertext => some (salt ++ ciphertext)

def aeadDecryptAll (K : AeadCipher) (ciphertext : List Byte) : Option (List Byte) :=
  if ciphertext.length ≤ K.keyLen + K.tagLen then none
  else
    let salt := ciphertext.take K.keyLen
    if K.ppbloomCheck salt then none
    else
      K.aeadCipherDecrypt (K.hkdf salt) (List.replicate K.nonceLen 0)
        (ciphertext.drop K.keyLen)

/-- `data` under the key stream, from the position `cipher_ctx->counter` on. -/
def streamXor (K : StreamCipher ε) (ctx : CipherCtx ε) (data : List Byte)
    : List Byte × CipherCtx ε :=
  let padding := ctx.counter % SODIUM_BLOCK_SIZE
  let output := K.cryptoStreamXorIc ctx.nonce (ctx.counter / SODIUM_BLOCK_SIZE)
    (List.replicate padding 0 ++ data)
  (output.drop padding, { ctx with counter := (ctx.counter + data.length) % 2 ^ 64 })

def streamEncrypt (K : StreamCipher ε) (cipherCtx : CipherCtx ε) (plaintext : List Byte)
    : Option (List Byte × CipherCtx ε) :=
  if cipherCtx.init = 0 then
    let nonce := cipherCtx.nonce
    let ctx := { cipherCtx with evp := K.cipherCtxSetNonce nonce, counter := 0, init := 1 }
    match update ctx with
    | none => none
    | some (ciphertext, ctx) => some (nonce ++ ciphertext, ctx)
  else update cipherCtx
where
  update (ctx : CipherCtx ε) : Option (List Byte × CipherCtx ε) :=
    if SALSA20 ≤ K.method then some (streamXor K ctx plaintext)
    else
      match K.cipherCtxUpdate ctx.evp plaintext with
      | none => none
      | some (ciphertext, evp) => some (ciphertext, { ctx with evp := evp })

def streamDecrypt (K : StreamCipher ε) (cipherCtx : CipherCtx ε) (ciphertext : List Byte)
    : Decrypted (CipherCtx ε) :=
  if cipherCtx.init = 0 then
    let leftLen := min (K.nonceLen - cipherCtx.chunk.length) ciphertext.length
    let chunk := cipherCtx.chunk ++ ciphertext.take leftLen
    let ctx := { cipherCtx with chunk := chunk }
    if chunk.length < K.nonceLen then ⟨.CRYPTO_NEED_MORE, ctx, 0⟩
    else
      let ctx := { ctx with
        nonce := chunk, evp := K.cipherCtxSetNonce chunk, counter := 0, init := 1 }
      if RC4_MD5 ≤ K.method ∧ K.ppbloomCheck chunk then ⟨.CRYPTO_ERROR, ctx, 0⟩
      else update ctx (ciphertext.drop leftLen)
  else update cipherCtx ciphertext
where
  update (ctx : CipherCtx ε) (ciphertext : List Byte) : Decrypted (CipherCtx ε) :=
    if ciphertext.length ≤ 0 then ⟨.CRYPTO_NEED_MORE, ctx, 0⟩
    else if SALSA20 ≤ K.method then
      -- room for the padding is made in the caller's buffer
      let padding := ctx.counter % SODIUM_BLOCK_SIZE
      let demand := if padding = 0 then 0 else ciphertext.length + padding
      let (plaintext, ctx) := streamXor K ctx ciphertext
      finish ctx plaintext demand
    else
      match K.cipherCtxUpdate ctx.evp ciphertext with
      | none => ⟨.CRYPTO_ERROR, ctx, 0⟩
      | some (plaintext, evp) => finish { ctx with evp := evp } plaintext 0
  finish (ctx : CipherCtx ε) (plaintext : List Byte) (demand : Nat) : Decrypted (CipherCtx ε) :=
    if ctx.init = 1 ∧ RC4_MD5 ≤ K.method then
      if K.ppbloomCheck ctx.nonce then ⟨.CRYPTO_ERROR, ctx, demand⟩
      else ⟨.CRYPTO_OK plaintext, { ctx with init := 2 }, max demand plaintext.length⟩
    else ⟨.CRYPTO_OK plaintext, ctx, max demand plaintext.length⟩

def streamEncryptAll (K : StreamCipher ε) (nonce plaintext : List Byte) : Option (List Byte) :=
  if SALSA20 ≤ K.method then some (nonce ++ K.cryptoStreamXorIc nonce 0 plaintext)
  else
    match K.cipherCtxUpdate (K.cipherCtxSetNonce nonce) plaintext with
    | none => none
    | some (ciphertext, _) => some (nonce ++ ciphertext)

def streamDecryptAll (K : StreamCipher ε) (ciphertext : List Byte) : Option (List Byte) :=
  if ciphertext.length ≤ K.nonceLen then none
  else
    let nonce := ciphertext.take K.nonceLen
    let data := ciphertext.drop K.nonceLen
    if K.ppbloomCheck nonce then none
    else if SALSA20 ≤ K.method then some (K.cryptoStreamXorIc nonce 0 data)
    else
      match K.cipherCtxUpdate (K.cipherCtxSetNonce nonce) data with
      | none => none
      | some (plaintext, _) => some plaintext

inductive Cipher (ε : Type) where
  | aead (K : AeadCipher)
  | stream (K : StreamCipher ε)

def cryptoInit : Cipher ε → Crypto (CipherCtx ε)
  | .aead K => ⟨aeadEncrypt K, aeadDecrypt K, aeadEncryptAll K, aeadDecryptAll K⟩
  | .stream K => ⟨streamEncrypt K, streamDecrypt K, streamEncryptAll K, streamDecryptAll K⟩

end Xsocks
