import Mathlib.Data.List.Nodup
import Xsocks.Protocol.Lemmas.Cipher
import Xsocks.Protocol.Lemmas.Nonce

/-!
This module contains what an AEAD cipher gives back for a stream that comes from anyone, as long as every message
that decrypts has been encrypted by someone who has the key: the beginning of one of the streams that were sent.
-/

namespace Xsocks

variable {κ ε : Type}

/-- The plaintext that `decrypt` gives back for the parts of a stream, up to the first error. -/
def Crypto.received (C : Crypto κ) (dCtx : κ) : List (List Byte) → List Byte
  | [] => []
  | seg :: segs =>
    let d := C.decrypt dCtx seg
    match d.res with
    | .CRYPTO_OK plaintext => plaintext ++ C.received d.dCtx segs
    | .CRYPTO_NEED_MORE => C.received d.dCtx segs
    | .CRYPTO_ERROR => []

namespace AeadCipher

/-- With this nonce `message` is encrypted when the chunks `ps` are sent: the length of a chunk, and then the chunk. -/
def Sealed (K : AeadCipher) (ps : List (List Byte)) (nonce message : List Byte) : Prop :=
  ∃ i p, ps[i]? = some p
    ∧ (nonce = K.nonceAt (2 * i) ∧ message = chunkLenBuf p.length ∨ nonce = K.nonceAt (2 * i + 1) ∧ message = p)

/-- Nothing in the bytes `S` is a forgery: after the salt that they begin with, the chunks `ps` were sent. -/
def Unforged (K : AeadCipher) (ps : List (List Byte)) (S : List Byte) : Prop :=
  ∀ nonce c message, c <:+: S
    → K.aeadCipherDecrypt (K.hkdf (S.take K.keyLen)) nonce c = some message
    → K.Sealed ps nonce message

structure Opened (K : AeadCipher) (S : List Byte) (ps : List (List Byte)) (x : List Byte) (n : Nat)
    (ctx : CipherCtx ε) : Prop where
  skey : ctx.skey = K.hkdf (S.take K.keyLen)
  nonce : ctx.nonce = K.nonceAt (2 * n)
  chunk : ctx.chunk <:+ x
  le : n ≤ ps.length

inductive Accepting (K : AeadCipher) (S : List Byte) (ps : List (List Byte)) (x : List Byte)
    : Nat → CipherCtx ε → Prop where
  | salt {ctx : CipherCtx ε} (init : ctx.init = 0) (chunk : ctx.chunk = x) : Accepting K S ps x 0 ctx
  | chunks {n : Nat} {ctx : CipherCtx ε} (init : ctx.init ≠ 0) (opened : K.Opened S ps x n ctx)
    : Accepting K S ps x n ctx

variable {K : AeadCipher} {S x seg : List Byte} {ps : List (List Byte)} {n : Nat}
  {ctx : CipherCtx ε}

theorem Sealed.len {message : List Byte} (h : K.Sealed ps (K.nonceAt (2 * n)) message)
    (hlen : 2 * ps.length < 256 ^ K.nonceLen) (hn : n ≤ ps.length)
    : ∃ p, ps[n]? = some p ∧ message = chunkLenBuf p.length := by
  obtain ⟨i, p, hp, hnonce⟩ := h
  have hi : i < ps.length := (List.getElem?_eq_some_iff.mp hp).1
  rcases hnonce with ⟨hnonce, hmessage⟩ | ⟨hnonce, -⟩
  . have heq := nonceAt_inj (by omega) (by omega) hnonce
    have heq : n = i := by omega
    rw [heq]
    exact ⟨p, hp, hmessage⟩
  . have heq := nonceAt_inj (by omega) (by omega) hnonce
    omega

theorem Sealed.payload {message : List Byte} (h : K.Sealed ps (K.nonceAt (2 * n + 1)) message)
    (hlen : 2 * ps.length < 256 ^ K.nonceLen) (hn : n < ps.length)
    : ps[n]? = some message := by
  obtain ⟨i, p, hp, hnonce⟩ := h
  have hi : i < ps.length := (List.getElem?_eq_some_iff.mp hp).1
  rcases hnonce with ⟨hnonce, -⟩ | ⟨hnonce, hmessage⟩
  . have heq := nonceAt_inj (by omega) (by omega) hnonce
    omega
  . have heq := nonceAt_inj (by omega) (by omega) hnonce
    have heq : n = i := by omega
    rw [heq, hmessage]
    exact hp

theorem aeadChunkDecrypt_cases (ctx : CipherCtx ε)
    : aeadChunkDecrypt K ctx = (.CRYPTO_NEED_MORE, ctx) ∨ (aeadChunkDecrypt K ctx).1 = .CRYPTO_ERROR
      ∨ ∃ lenBuf c p chunk, c <:+: ctx.chunk ∧ chunk <:+ ctx.chunk
        ∧ K.aeadCipherDecrypt ctx.skey ctx.nonce (ctx.chunk.take (CHUNK_SIZE_LEN + K.tagLen)) = some lenBuf
        ∧ K.aeadCipherDecrypt ctx.skey (sodiumIncrement ctx.nonce) c = some p
        ∧ aeadChunkDecrypt K ctx = (.CRYPTO_OK p, { ctx with
          nonce := sodiumIncrement (sodiumIncrement ctx.nonce), chunk := chunk }) := by
  unfold aeadChunkDecrypt
  split
  . exact .inl rfl
  . split
    . exact .inr (.inl rfl)
    . next lenBuf hlenBuf =>
      dsimp only
      split
      . exact .inr (.inl rfl)
      . split
        . exact .inl rfl
        . split
          . exact .inr (.inl rfl)
          . next p hp =>
            have hinfix := (List.take_prefix (chunkMlen lenBuf + K.tagLen)
              (ctx.chunk.drop (CHUNK_SIZE_LEN + K.tagLen))).isInfix.trans (List.drop_suffix _ ctx.chunk).isInfix
            exact .inr (.inr ⟨lenBuf, _, p, _, hinfix, List.drop_suffix _ _, hlenBuf, hp, rfl⟩)

section

variable (hunforged : K.Unforged ps S) (hlen : 2 * ps.length < 256 ^ K.nonceLen)

include hunforged hlen

theorem Opened.chunkDecrypt (h : K.Opened S ps x n ctx) (hx : x <+: S)
    : aeadChunkDecrypt K ctx = (.CRYPTO_NEED_MORE, ctx) ∨ (aeadChunkDecrypt K ctx).1 = .CRYPTO_ERROR
      ∨ ∃ p ctx', aeadChunkDecrypt K ctx = (.CRYPTO_OK p, ctx') ∧ ps[n]? = some p
        ∧ ctx'.init = ctx.init ∧ K.Opened S ps x (n + 1) ctx' := by
  rcases aeadChunkDecrypt_cases (K := K) ctx with hmore | herror | ⟨lenBuf, c, p, chunk, hc, hchunk, hlenBuf, hp, heq⟩
  . exact .inl hmore
  . exact .inr (.inl herror)
  . have hinfix := h.chunk.isInfix.trans hx.isInfix
    have htake := (List.take_prefix (CHUNK_SIZE_LEN + K.tagLen) ctx.chunk).isInfix.trans hinfix
    rw [h.skey, h.nonce] at hlenBuf hp
    rw [← nonceAt_succ] at hp
    obtain ⟨q, hq, -⟩ := (hunforged _ _ _ htake hlenBuf).len hlen h.le
    have hlt : n < ps.length := (List.getElem?_eq_some_iff.mp hq).1
    have hpayload := (hunforged _ _ _ (hc.trans hinfix) hp).payload hlen hlt
    refine .inr (.inr ⟨p, _, heq, hpayload, rfl, h.skey, ?_, hchunk.trans h.chunk, hlt⟩)
    rw [h.nonce, ← nonceAt_succ, ← nonceAt_succ]
    rfl

theorem Opened.loop (h : K.Opened S ps x n ctx) (hx : x <+: S) (plaintext : List Byte) (rounds : Nat)
    : ∃ k ctx', ctx'.init = ctx.init ∧ K.Opened S ps x (n + k) ctx'
        ∧ (aeadDecrypt.loop K ctx plaintext rounds
            = (.CRYPTO_OK (plaintext ++ ((ps.drop n).take k).flatten), ctx')
          ∨ aeadDecrypt.loop K ctx plaintext rounds = (.CRYPTO_NEED_MORE, ctx')
            ∧ plaintext ++ ((ps.drop n).take k).flatten = []
          ∨ (aeadDecrypt.loop K ctx plaintext rounds).1 = .CRYPTO_ERROR) := by
  induction rounds generalizing ctx plaintext n with
  | zero => exact ⟨0, ctx, rfl, h, .inl (by simp [aeadDecrypt.loop])⟩
  | succ rounds ih =>
    rw [aeadDecrypt.loop]
    split
    . exact ⟨0, ctx, rfl, h, .inl (by simp)⟩
    . rcases h.chunkDecrypt hunforged hlen hx with hmore | herror | ⟨p, ctx₁, heq, hp, hinit, h₁⟩
      . rw [hmore]
        dsimp only
        split
        . next hnil => exact ⟨0, ctx, rfl, h, .inr (.inl ⟨rfl, by simp [hnil]⟩)⟩
        . exact ⟨0, ctx, rfl, h, .inl (by simp)⟩
      . generalize aeadChunkDecrypt K ctx = decrypted at herror
        obtain ⟨res, ctx₁⟩ := decrypted
        dsimp only at herror
        subst herror
        exact ⟨0, ctx, rfl, h, .inr (.inr rfl)⟩
      . obtain ⟨k, ctx', hinit', h', hloop⟩ := ih h₁ (plaintext ++ p)
        have hcons : (ps.drop n).take (k + 1) = p :: (ps.drop (n + 1)).take k := by
          obtain ⟨hlt, hget⟩ := List.getElem?_eq_some_iff.mp hp
          rw [List.drop_eq_getElem_cons hlt, hget, List.take_succ_cons]
        have hsum : n + (k + 1) = n + 1 + k := by omega
        refine ⟨k + 1, ctx', hinit'.trans hinit, by rw [hsum]; exact h', ?_⟩
        rw [heq, hcons, List.flatten_cons, ← List.append_assoc]
        exact hloop

theorem Opened.chunks (h : K.Opened S ps x n ctx) (hx : x <+: S) (hinit : ctx.init ≠ 0)
    : (aeadDecrypt.chunks K ctx).res = .CRYPTO_ERROR
      ∨ ∃ k, K.Accepting S ps x (n + k) (aeadDecrypt.chunks K ctx).dCtx
        ∧ ((aeadDecrypt.chunks K ctx).res = .CRYPTO_OK ((ps.drop n).take k).flatten
          ∨ (aeadDecrypt.chunks K ctx).res = .CRYPTO_NEED_MORE ∧ ((ps.drop n).take k).flatten = []) := by
  obtain ⟨k, ctx', hinit', h', hloop⟩ := h.loop hunforged hlen hx [] ctx.chunk.length
  have hne : ctx'.init ≠ 0 := by
    rw [hinit']
    exact hinit
  unfold aeadDecrypt.chunks
  rcases hloop with heq | ⟨heq, hnil⟩ | herror
  . rw [heq]
    dsimp only
    split
    . split
      . exact .inl rfl
      . exact .inr ⟨k, .chunks (Nat.succ_ne_zero 1) ⟨h'.skey, h'.nonce, h'.chunk, h'.le⟩, .inl rfl⟩
    . exact .inr ⟨k, .chunks hne h', .inl rfl⟩
  . rw [heq]
    exact .inr ⟨k, .chunks hne h', .inr ⟨rfl, hnil⟩⟩
  . generalize aeadDecrypt.loop K ctx [] ctx.chunk.length = decrypted at herror
    obtain ⟨res, ctx₁⟩ := decrypted
    dsimp only at herror
    subst herror
    exact .inl rfl

theorem Accepting.decrypt (h : K.Accepting S ps x n ctx) (hx : x ++ seg <+: S)
    : (aeadDecrypt K ctx seg).res = .CRYPTO_ERROR
      ∨ ∃ k, K.Accepting S ps (x ++ seg) (n + k) (aeadDecrypt K ctx seg).dCtx
        ∧ ((aeadDecrypt K ctx seg).res = .CRYPTO_OK ((ps.drop n).take k).flatten
          ∨ (aeadDecrypt K ctx seg).res = .CRYPTO_NEED_MORE ∧ ((ps.drop n).take k).flatten = []) := by
  unfold aeadDecrypt
  dsimp only
  cases h with
  | salt init chunk =>
    rw [if_pos init, chunk]
    split
    . exact .inr ⟨0, .salt init rfl, .inr ⟨rfl, rfl⟩⟩
    . next hlt =>
      split
      . exact .inl rfl
      . apply Opened.chunks hunforged hlen _ hx (Nat.succ_ne_zero 0)
        have hsalt : (x ++ seg).take K.keyLen = S.take K.keyLen := take_prefix_eq hx (by omega)
        constructor
        case skey => rw [aeadCipherCtxSetKey, ← hsalt]
        case nonce => rfl
        case chunk => exact List.drop_suffix _ _
        case le => exact Nat.zero_le _
  | chunks init opened =>
    rw [if_neg init]
    obtain ⟨front, hfront⟩ := opened.chunk
    have hchunk : ctx.chunk ++ seg <:+ x ++ seg := ⟨front, by rw [← hfront, List.append_assoc]⟩
    have hopened : K.Opened S ps (x ++ seg) n { ctx with chunk := ctx.chunk ++ seg } :=
      ⟨opened.skey, opened.nonce, hchunk, opened.le⟩
    exact hopened.chunks hunforged hlen hx init

theorem Accepting.received (h : K.Accepting S ps x n ctx) (segs : List (List Byte)) (hx : x ++ segs.flatten <+: S)
    : ∃ k, (cryptoInit (.aead K)).received ctx segs = ((ps.drop n).take k).flatten := by
  induction segs generalizing x n ctx with
  | nil => exact ⟨0, rfl⟩
  | cons seg segs ih =>
    rw [List.flatten_cons, ← List.append_assoc] at hx
    have hseg : x ++ seg <+: S := (List.prefix_append _ _).trans hx
    rw [Crypto.received, cryptoInit]
    dsimp only
    rcases h.decrypt hunforged hlen hseg with herror | ⟨k, h', hres⟩
    . rw [herror]
      exact ⟨0, rfl⟩
    . obtain ⟨k', hk'⟩ := ih h' hx
      have hsum : ((ps.drop n).take (k + k')).flatten
          = ((ps.drop n).take k).flatten ++ ((ps.drop (n + k)).take k').flatten := by
        rw [← List.flatten_append, List.take_add, List.drop_drop]
      refine ⟨k + k', ?_⟩
      rw [hsum, ← hk']
      rcases hres with hok | ⟨hmore, hnil⟩
      . rw [hok]
        rfl
      . rw [hmore, hnil]
        rfl

end

end AeadCipher

/--
Whatever reaches a new connection, and however it is cut: if nothing in it is a forgery, then what is given back is
the beginning of what was sent after the salt that it begins with. Nothing is changed, left out, repeated or taken
from another stream.
-/
theorem aead_integrity {K : AeadCipher} (sent : List Byte → List (List Byte)) {dCtx : CipherCtx ε}
    {segs : List (List Byte)} (hinit : dCtx.init = 0) (hchunk : dCtx.chunk = [])
    (hunforged : K.Unforged (sent (segs.flatten.take K.keyLen)) segs.flatten)
    (hlen : 2 * (sent (segs.flatten.take K.keyLen)).length < 256 ^ K.nonceLen)
    : ∃ n, (cryptoInit (.aead K)).received dCtx segs = ((sent (segs.flatten.take K.keyLen)).take n).flatten := by
  have hsalt : K.Accepting segs.flatten (sent (segs.flatten.take K.keyLen)) [] 0 dCtx := .salt hinit hchunk
  exact hsalt.received hunforged hlen segs (List.prefix_refl _)

theorem length_of_tag {c m : List Byte} (h : c.drop (c.length - 16) = List.replicate 16 0)
    (hm : c.take (c.length - 16) = m)
    : c.length = m.length + 16 := by
  have hlength := congrArg List.length h
  rw [List.length_drop, List.length_replicate] at hlength
  rw [← hm, List.length_take]
  omega

theorem length_append_tag (m : List Byte) : (m ++ List.replicate 16 (0 : Byte)).length - 16 = m.length := by
  simp

/-- An AEAD cipher with the lengths of aes-256-gcm that encrypts only what is needed to send the chunks `ps`. -/
def AeadCipher.sending (ps : List (List Byte)) : AeadCipher where
  nonceLen := 12
  keyLen := 32
  tagLen := 16
  hkdf salt := salt
  aeadCipherEncrypt _ nonce m := if needed nonce m then some (m ++ List.replicate 16 0) else none
  aeadCipherDecrypt _ nonce c :=
    let m := c.take (c.length - 16)
    if c.drop (c.length - 16) = List.replicate 16 0 ∧ needed nonce m then some m else none
  ppbloomCheck _ := false
  length_encrypt h := by
    split at h
    . rw [← Option.some.inj h, List.length_append, List.length_replicate]
    . contradiction
  length_decrypt {_ _ c m} h := by
    dsimp only at h
    split at h
    . next hand => exact length_of_tag hand.1 (Option.some.inj h)
    . contradiction
  decrypt_encrypt {_ _ m c} h := by
    split at h
    . next hneeded =>
      dsimp only
      rw [← Option.some.inj h, length_append_tag, List.drop_left, List.take_left, if_pos ⟨rfl, hneeded⟩]
    . contradiction
where
  needed (nonce m : List Byte) : Bool :=
    ps.zipIdx.any fun (p, i) =>
      nonce = sodiumIncrement^[2 * i] (List.replicate 12 0) ∧ m = chunkLenBuf p.length
        ∨ nonce = sodiumIncrement^[2 * i + 1] (List.replicate 12 0) ∧ m = p

theorem AeadCipher.sending_unforged (ps : List (List Byte)) (S : List Byte)
    : (AeadCipher.sending ps).Unforged ps S := by
  intro nonce c message _ h
  rw [AeadCipher.sending] at h
  dsimp only at h
  split at h
  . next hand =>
    obtain ⟨⟨p, i⟩, hmem, heq⟩ := List.any_eq_true.mp hand.2
    rw [← Option.some.inj h]
    exact ⟨i, p, List.mk_mem_zipIdx_iff_getElem?.mp hmem, of_decide_eq_true heq⟩
  . contradiction

theorem aead_integrity_repeated
    : let K := AeadCipher.sending [[1, 2], [3]]
      let chunk : List Byte := chunkLenBuf 2 ++ List.replicate 16 0 ++ [1, 2] ++ List.replicate 16 0
      ∃ n, (cryptoInit (.aead K)).received (CipherCtx.new []) [List.replicate 32 7 ++ chunk, chunk]
        = (([[1, 2], [3]] : List (List Byte)).take n).flatten := by
  intro K chunk
  exact aead_integrity (fun _ => [[1, 2], [3]]) rfl rfl (AeadCipher.sending_unforged _ _) (by decide)

namespace AeadCipher

/-- The messages that are encrypted for the chunks `ps`, in order, each with its nonce. -/
def messages (K : AeadCipher) (n : Nat) : List (List Byte) → List (List Byte × List Byte)
  | [] => []
  | p :: ps => (K.nonceAt n, chunkLenBuf p.length) :: (K.nonceAt (n + 1), p) :: K.messages (n + 2) ps

variable {K : AeadCipher} {ps : List (List Byte)}

theorem map_fst_messages (n : Nat) (ps : List (List Byte))
    : (K.messages n ps).map Prod.fst = (List.range' n (2 * ps.length)).map K.nonceAt := by
  induction ps generalizing n with
  | nil => rfl
  | cons p ps ih =>
    have hlen : 2 * (p :: ps).length = 2 * ps.length + 1 + 1 := by
      rw [List.length_cons]
      omega
    rw [messages, hlen, List.range'_succ, List.range'_succ, List.map_cons, List.map_cons, List.map_cons,
      List.map_cons, ih]

theorem nodup_messages (hlen : 2 * ps.length ≤ 256 ^ K.nonceLen) : ((K.messages 0 ps).map Prod.fst).Nodup := by
  rw [map_fst_messages]
  apply List.Nodup.map_on
  . intro n hn m hm h
    rw [List.mem_range'_1] at hn hm
    exact nonceAt_inj (by omega) (by omega) h
  . exact List.nodup_range'

theorem Chunked.messages {skey bytes : List Byte} {n : Nat} (h : K.Chunked skey (K.nonceAt n) ps bytes)
    : ∃ cs, List.Forall₂ (fun message c => K.aeadCipherEncrypt skey message.1 message.2 = some c) (K.messages n ps) cs
        ∧ bytes = cs.flatten := by
  induction ps generalizing n bytes with
  | nil =>
    cases h
    exact ⟨[], .nil, rfl⟩
  | cons p ps ih =>
    cases h with
    | cons ne le encryptLen encrypt rest =>
      rw [← nonceAt_succ] at encrypt
      rw [← nonceAt_succ, ← nonceAt_succ] at rest
      obtain ⟨cs, hcs, rfl⟩ := ih rest
      refine ⟨_ :: _ :: cs, .cons encryptLen (.cons encrypt hcs), ?_⟩
      rw [List.flatten_cons, List.flatten_cons, List.append_assoc]

end AeadCipher

/--
What a connection sends is its salt and, for each chunk, its length and its bytes, each encrypted with the subkey of
the salt and with a nonce that no other of these messages has.
-/
theorem aead_nonces_distinct {K : AeadCipher} {eCtx eCtx' : CipherCtx ε} {ps : List (List Byte)} {ct : List Byte}
    (hne : ps ≠ []) (hinit : eCtx.init = 0) (hps : ∀ p ∈ ps, p ≠ [] ∧ p.length ≤ CHUNK_SIZE_MASK)
    (hlen : 2 * ps.length ≤ 256 ^ K.nonceLen)
    (hct : Chunks.encodeAll (cryptoInit (.aead K)).encrypt eCtx ps = some (ct, eCtx'))
    : ((K.messages 0 ps).map Prod.fst).Nodup
      ∧ ∃ cs, ct = eCtx.salt ++ cs.flatten
        ∧ List.Forall₂ (fun message c => K.aeadCipherEncrypt (K.hkdf eCtx.salt) message.1 message.2 = some c)
          (K.messages 0 ps) cs := by
  refine ⟨AeadCipher.nodup_messages hlen, ?_⟩
  cases ps with
  | nil => contradiction
  | cons p ps =>
    obtain ⟨bytes, rfl, hbytes⟩ := AeadCipher.chunked_of_encodeAll_cons hinit hps hct
    obtain ⟨cs, hcs, rfl⟩ := AeadCipher.Chunked.messages (n := 0) hbytes
    exact ⟨cs, rfl, hcs⟩

theorem aead_nonces_distinct_two_chunks
    : let K := AeadCipher.zero
      let ps : List (List Byte) := [[1, 2], [3]]
      let salt : List Byte := List.replicate 32 7
      let tag : List Byte := List.replicate 16 0
      ((K.messages 0 ps).map Prod.fst).Nodup
        ∧ ∃ cs, salt ++ chunkLenBuf 2 ++ tag ++ [1, 2] ++ tag ++ chunkLenBuf 1 ++ tag ++ [3] ++ tag = salt ++ cs.flatten
          ∧ List.Forall₂ (fun message c => K.aeadCipherEncrypt (K.hkdf salt) message.1 message.2 = some c)
            (K.messages 0 ps) cs := by
  intro K ps salt tag
  have hct : Chunks.encodeAll (cryptoInit (.aead K)).encrypt (CipherCtx.new salt) ps
      = some (salt ++ chunkLenBuf 2 ++ tag ++ [1, 2] ++ tag ++ chunkLenBuf 1 ++ tag ++ [3] ++ tag,
        { CipherCtx.new salt with init := 1, skey := salt, nonce := K.nonceAt 4 }) := by
    decide +kernel
  exact aead_nonces_distinct (List.cons_ne_nil _ _) rfl (by decide) (by decide) hct

end Xsocks
