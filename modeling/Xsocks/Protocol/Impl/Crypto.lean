import Xsocks.Core.Basic

/-!
This module contains the interface of the cipher library, as `crypto_t` has it. `κ` is the type of a
cipher context.
-/

namespace Xsocks

/-- The return codes of `decrypt`, with the plaintext that is left in the buffer on success. -/
inductive CryptoRes where
  | CRYPTO_OK (plaintext : List Byte)
  | CRYPTO_NEED_MORE
  | CRYPTO_ERROR
  deriving DecidableEq

structure Decrypted (κ : Type) where
  res : CryptoRes
  dCtx : κ
  /-- The largest capacity that a `brealloc` on the caller's buffer asked for. -/
  demand : Nat

structure Crypto (κ : Type) where
  /-- `none` is a failure, otherwise the ciphertext and the advanced context. -/
  encrypt (eCtx : κ) (plaintext : List Byte) : Option (List Byte × κ)
  decrypt (dCtx : κ) (ciphertext : List Byte) : Decrypted κ
  encryptAll (nonce : List Byte) (plaintext : List Byte) : Option (List Byte)
  decryptAll (ciphertext : List Byte) : Option (List Byte)

end Xsocks
