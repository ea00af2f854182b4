import Xsocks.Protocol.Lemmas.Crypto
import Xsocks.Tcp.Lemmas.KeyStream

/-!
This module contains what `encrypt_all` and `decrypt_all` of the two kinds of ciphers do with a datagram.
-/

namespace Xsocks

open KeyStream

variable {ε : Type}

def drawn (len : Nat) (random : List Byte) : List Byte :=
  (random ++ List.replicate len 0).take len

theorem length_drawn (len : Nat) (random : List Byte) : (drawn len random).length = len := by
  rw [drawn, List.length_take, List.length_append, List.length_replicate]
  exact Nat.min_eq_left (Nat.le_add_left _ _)

namespace AeadCipher

def datagrams (K : AeadCipher) : Crypto (CipherCtx ε) :=
  { cryptoInit (.aead K) with encryptAll := fun random p => aeadEncryptAll K (drawn K.keyLen random) p }

structure Whole (K : AeadCipher) : Prop where
  overhead_le : K.keyLen + K.tagLen ≤ 80
  fresh : ∀ salt, K.ppbloomCheck salt = false
  encrypts : ∀ skey nonce m, m.length ≤ Crypto.DATAGRAM_MAX_LEN → ∃ c, K.aeadCipherEncrypt skey nonce m = some c

variable {K : AeadCipher} {salt p ct : List Byte}

theorem exists_of_encryptAll (h : aeadEncryptAll K salt p = some ct)
    : ∃ c, K.aeadCipherEncrypt (K.hkdf salt) (List.replicate K.nonceLen 0) p = some c ∧ ct = salt ++ c := by
  unfold aeadEncryptAll at h
  split at h
  . contradiction
  . next c heq => exact ⟨c, heq, (Option.some.inj h).symm⟩

theorem Whole.datagrams (h : K.Whole) : (K.datagrams (ε := ε)).Datagrams true (K.keyLen + K.tagLen) where
  overhead_le := h.overhead_le
  encrypts p hp := by
    obtain ⟨c, hc⟩ := h.encrypts (K.hkdf (drawn K.keyLen [])) (List.replicate K.nonceLen 0) p hp
    refine ⟨[], drawn K.keyLen [] ++ c, ?_⟩
    simp only [AeadCipher.datagrams, aeadEncryptAll, hc]
  length {random p c} _ hct := by
    obtain ⟨c, hc, rfl⟩ := exists_of_encryptAll hct
    rw [List.length_append, length_drawn, K.length_encrypt hc]
    omega
  inverse {random p c} _ hct hp := by
    obtain ⟨c, hc, rfl⟩ := exists_of_encryptAll hct
    have hlen := K.length_encrypt hc
    have hpos := List.length_pos_iff.mpr hp
    have hsalt := length_drawn K.keyLen random
    show aeadDecryptAll K _ = _
    unfold aeadDecryptAll
    rw [if_neg (by rw [List.length_append]; omega)]
    dsimp only
    rw [if_neg (by simp [h.fresh]), List.take_left' hsalt, List.drop_left' hsalt, K.decrypt_encrypt hc]
  cut_stream := by simp

theorem whole_zero : zero.Whole where
  overhead_le := by decide
  fresh _ := rfl
  encrypts _ _ _ _ := ⟨_, rfl⟩

end AeadCipher

namespace StreamCipher

variable {D E : StreamCipher ε}

def datagrams (D E : StreamCipher ε) : Crypto (CipherCtx ε) :=
  {
    encrypt := streamEncrypt E
    decrypt := streamDecrypt D
    encryptAll := fun random p => streamEncryptAll E (drawn E.nonceLen random) p
    decryptAll := streamDecryptAll D
  }

structure Whole (D E : StreamCipher ε) (ks : List Byte → Nat → Byte) (limit : Nat) : Prop where
  overhead_le : E.nonceLen ≤ 80
  limit_ge : E.nonceLen + Crypto.DATAGRAM_MAX_LEN ≤ limit
  fresh : ∀ nonce, D.ppbloomCheck nonce = false
  encrypts : ∀ nonce m, m.length ≤ Crypto.DATAGRAM_MAX_LEN
    → (E.cipherCtxUpdate (E.cipherCtxSetNonce nonce) m).isSome
  lawful : E.Lawful ks limit
  lawful' : D.Lawful ks limit
  decrypts : D.Decrypts E

variable {ks : List Byte → Nat → Byte} {limit : Nat} {random p c : List Byte}

def fresh (D : StreamCipher ε) : CipherCtx ε :=
  ⟨0, 0, D.cipherCtxSetNonce [], [], [], [], []⟩

theorem Whole.decrypted (h : Whole D E ks limit) (hp : p.length ≤ Crypto.DATAGRAM_MAX_LEN)
    (hc : streamEncryptAll E (drawn E.nonceLen random) p = some c)
    : c.length = E.nonceLen + p.length ∧ c.length ≤ limit ∧ ∃ last, D.decrypted D.fresh c = some (p, last) := by
  have hlimit := h.limit_ge
  obtain ⟨-, hlen, hdecrypted⟩ :=
    h.decrypts.decrypted h.lawful' h.lawful D.fresh (length_drawn _ _) (by omega) hc
  rw [length_drawn] at hlen
  exact ⟨hlen, by omega, hdecrypted⟩

theorem Whole.datagrams (h : Whole D E ks limit) : (StreamCipher.datagrams D E).Datagrams false E.nonceLen where
  overhead_le := h.overhead_le
  encrypts p hp := by
    refine ⟨[], ?_⟩
    show ∃ c, streamEncryptAll E _ p = some c
    unfold streamEncryptAll
    split
    . exact ⟨_, rfl⟩
    . obtain ⟨result, hresult⟩ := Option.isSome_iff_exists.mp (h.encrypts (drawn E.nonceLen []) p hp)
      rw [hresult]
      exact ⟨_, rfl⟩
  length hp hc := (h.decrypted hp hc).1
  inverse {random p c} hp hc hne := by
    obtain ⟨hlen, hle, last, hlast⟩ := h.decrypted hp hc
    have hpos := List.length_pos_iff.mpr hne
    have hnonce := h.decrypts.nonceLen_eq
    show streamDecryptAll D c = _
    rw [h.lawful'.streamDecryptAll_eq D.fresh (by omega) hle (h.fresh _), hlast]
    rfl
  cut_stream _ {random p c} hp hc hlt := by
    obtain ⟨hlen, hle, last, hlast⟩ := h.decrypted hp hc
    have hoverhead := h.overhead_le
    have hnonce := h.decrypts.nonceLen_eq
    have hN : NET_IOBUF_LEN = 16384 := rfl
    have htake : (c.take NET_IOBUF_LEN).length = NET_IOBUF_LEN := by
      rw [List.length_take, Nat.min_eq_left (Nat.le_of_lt hlt)]
    have hsplit : c.take NET_IOBUF_LEN ++ c.drop NET_IOBUF_LEN = c := List.take_append_drop _ _
    obtain ⟨out, ctx, out', ctx', hout, -, hall⟩ := decrypted_append (c := c.take NET_IOBUF_LEN)
      (d := c.drop NET_IOBUF_LEN) h.lawful' hle hlast (by rw [hsplit]) (by omega)
    have houtlen := (process_keeps hout).1
    rw [List.length_drop, htake, hnonce] at houtlen
    rw [hsplit, hlast, Option.some.injEq, Prod.mk.injEq] at hall
    show streamDecryptAll D _ = _
    rw [h.lawful'.streamDecryptAll_eq D.fresh (by omega) (by omega) (h.fresh _), hout, hall.1, ← houtlen,
      List.take_left]
    rfl

theorem lawful_zero : zero.Lawful (fun _ _ => 0) (2 ^ 38) where
  limit_lt := by decide
  update_append _ _ _ := rfl
  xor nonce ic m _ := by
    apply List.ext_getElem?
    intro i
    rw [xorAt, List.getElem?_mapIdx]
    cases hi : m[i]? with
    | none => exact hi
    | some b => simpa [zero] using hi

theorem decrypts_zero : zero.Decrypts zero where
  method_eq := rfl
  nonceLen_eq := rfl
  update {nonce m c evp} h := by
    obtain ⟨rfl, -⟩ := Prod.mk.inj (Option.some.inj h)
    exact ⟨(), rfl⟩

theorem whole_zero : Whole zero zero (fun _ _ => 0) (2 ^ 38) where
  overhead_le := by decide
  limit_ge := by decide
  fresh _ := rfl
  encrypts _ _ _ := rfl
  lawful := lawful_zero
  lawful' := lawful_zero
  decrypts := decrypts_zero

end StreamCipher

end Xsocks
