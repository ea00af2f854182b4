import Mathlib.Data.List.Infix
import Xsocks.Lib.Chunks
import Xsocks.Protocol.Impl.Crypto
import Xsocks.Protocol.Impl.Socks5

/-!
This module contains two ciphers of the simplest kind: one that copies its input, and one that sends
an initialisation vector in front of it as the stream ciphers do.
-/

namespace Xsocks

open Chunks

namespace Crypto

def copy : Crypto Unit where
  encrypt eCtx plaintext := some (plaintext, eCtx)
  decrypt dCtx ciphertext := ⟨.CRYPTO_OK ciphertext, dCtx, ciphertext.length⟩
  encryptAll _ plaintext := some plaintext
  decryptAll ciphertext := some ciphertext

/--
A stream cipher with the key stream zero and an initialisation vector of one byte in front of the
first chunk. The context says whether the vector is through.
-/
def stream : Crypto Bool where
  encrypt eCtx plaintext := some (if eCtx then plaintext else 0 :: plaintext, true)
  decrypt dCtx ciphertext :=
    let plaintext := if dCtx then ciphertext else ciphertext.drop 1
    ⟨if plaintext = [] then .CRYPTO_NEED_MORE else .CRYPTO_OK plaintext, true, ciphertext.length⟩
  encryptAll nonce plaintext := some (nonce.headD 0 :: plaintext)
  decryptAll ciphertext := if ciphertext.length ≤ 1 then none else some (ciphertext.drop 1)

theorem encodeAll_copy (ps : List (List Byte))
    : encodeAll copy.encrypt () ps = some (ps.flatten, ()) := by
  induction ps with
  | nil => rfl
  | cons p ps ih =>
    have hp : copy.encrypt () p = some (p, ()) := rfl
    simp [encodeAll, hp, ih]

theorem recovers_copy : Recovers copy.encrypt () id where
  mono := id
  inverse h := by
    rw [encodeAll_copy] at h
    simp only [Option.some.injEq, Prod.mk.injEq] at h
    exact h.1.symm

theorem encodeAll_stream (ps : List (List Byte))
    : encodeAll stream.encrypt true ps = some (ps.flatten, true) := by
  induction ps with
  | nil => rfl
  | cons p ps ih =>
    have hp : stream.encrypt true p = some (p, true) := rfl
    simp [encodeAll, hp, ih]

theorem recovers_stream : Recovers stream.encrypt false (·.drop 1) where
  mono h := h.drop 1
  inverse {ps x c'} h := by
    cases ps with
    | nil =>
      simp only [encodeAll, Option.some.injEq, Prod.mk.injEq] at h
      simp [← h.1]
    | cons p ps =>
      have hfirst : stream.encrypt false p = some (0 :: p, true) := rfl
      simp only [encodeAll, hfirst, encodeAll_stream, Option.some.injEq, Prod.mk.injEq] at h
      simp [← h.1]

def DATAGRAM_MAX_LEN : Nat := SOCKS5_ADDR_MAX_LEN + NET_IOBUF_LEN

/--
What `encrypt_all` and `decrypt_all` do with a datagram of the relay, of which no more than a buffer is read. `overhead`
is the length of the initialisation vector of a stream cipher, or of the salt and the tag of an AEAD cipher.
-/
structure Datagrams {κ : Type} (C : Crypto κ) (aead : Bool) (overhead : Nat) : Prop where
  overhead_le : overhead ≤ 80
  encrypts : ∀ p, p.length ≤ DATAGRAM_MAX_LEN → ∃ nonce c, C.encryptAll nonce p = some c
  length : ∀ {nonce p c}, p.length ≤ DATAGRAM_MAX_LEN → C.encryptAll nonce p = some c
    → c.length = overhead + p.length
  inverse : ∀ {nonce p c}, p.length ≤ DATAGRAM_MAX_LEN → C.encryptAll nonce p = some c → p ≠ []
    → C.decryptAll c = some p
  cut_stream : aead = false → ∀ {nonce p c}, p.length ≤ DATAGRAM_MAX_LEN → C.encryptAll nonce p = some c
    → NET_IOBUF_LEN < c.length → C.decryptAll (c.take NET_IOBUF_LEN) = some (p.take (NET_IOBUF_LEN - overhead))

/--
The integrity of the datagram `c` under an AEAD cipher: the part of it that a buffer holds is not taken for a
message, since its last bytes are not the tag of the rest.
-/
def Unforged {κ : Type} (C : Crypto κ) (aead : Bool) (c : List Byte) : Prop :=
  aead = true → NET_IOBUF_LEN < c.length → C.decryptAll (c.take NET_IOBUF_LEN) = none

theorem unforged_false {κ : Type} (C : Crypto κ) (c : List Byte) : C.Unforged false c := by
  intro h
  contradiction

theorem datagrams_stream : stream.Datagrams false 1 where
  overhead_le := by decide
  encrypts p _ := ⟨[], _, rfl⟩
  length {nonce p c} _ h := by
    simp only [stream, Option.some.injEq] at h
    rw [← h, List.length_cons]
    omega
  inverse {nonce p c} _ h hp := by
    simp only [stream, Option.some.injEq] at h
    subst h
    have hpos := List.length_pos_iff.mpr hp
    simp only [stream, List.length_cons]
    rw [if_neg (by omega)]
    rfl
  cut_stream _ {nonce p c} _ h hlt := by
    simp only [stream, Option.some.injEq] at h
    subst h
    have htake : ((nonce.headD 0 :: p).take NET_IOBUF_LEN).length = NET_IOBUF_LEN := by
      rw [List.length_take, Nat.min_eq_left (Nat.le_of_lt hlt)]
    simp only [stream, htake]
    rw [if_neg (by decide)]
    rfl

end Crypto

end Xsocks
