import Xsocks.Protocol.Lemmas.Aead
import Xsocks.Tcp.Lemmas.ServerStream

/-!
This module contains what the AEAD ciphers make of a stream that someone who has the key sends: it does not matter
how the stream is cut.
-/

namespace Xsocks

open Chunks

variable {ε : Type}

namespace AeadCipher

/-- The context `dCtx` after the salt and the chunks `done` have been taken off the bytes `c`. -/
def taken (K : AeadCipher) (dCtx : CipherCtx ε) (c : List Byte) (done : List (List Byte)) : CipherCtx ε :=
  { dCtx with
    init := if done = [] then 1 else 2
    chunk := c.drop (K.keyLen + (done.map K.sealedLen).sum)
    salt := c.take K.keyLen
    skey := K.hkdf (c.take K.keyLen)
    nonce := K.nonceAt (2 * done.length) }

/-- What the bytes `c` of a stream have made of the context `dCtx`. -/
def ctxAfter (K : AeadCipher) (dCtx : CipherCtx ε) (ps : List (List Byte)) (c : List Byte) : CipherCtx ε :=
  if c.length ≤ K.keyLen then { dCtx with chunk := c }
  else K.taken dCtx c (K.completed (c.length - K.keyLen) ps)

def plainAfter (K : AeadCipher) (ps : List (List Byte)) (c : List Byte) : List Byte :=
  (K.completed (c.length - K.keyLen) ps).flatten

variable {K : AeadCipher} {ctx dCtx : CipherCtx ε} {ps : List (List Byte)} {bytes salt c d : List Byte} {n : Nat}

def advance (K : AeadCipher) (ctx : CipherCtx ε) (done : List (List Byte)) : CipherCtx ε :=
  { ctx with
    nonce := sodiumIncrement^[2 * done.length] ctx.nonce
    chunk := ctx.chunk.drop (done.map K.sealedLen).sum }

theorem advance_nil : K.advance ctx [] = ctx := by
  simp [advance]

theorem advance_cons (p : List Byte) (done : List (List Byte))
    : K.advance ctx (p :: done) = K.advance { ctx with
        nonce := sodiumIncrement (sodiumIncrement ctx.nonce)
        chunk := ctx.chunk.drop (K.sealedLen p) } done := by
  have hlen : 2 * (p :: done).length = 2 * done.length + 1 + 1 := by
    rw [List.length_cons]
    omega
  rw [advance, advance, hlen, Function.iterate_succ_apply, Function.iterate_succ_apply, List.map_cons, List.sum_cons,
    List.drop_drop]

theorem Holds.loop_eq (h : K.Holds ctx ps bytes) (plaintext : List Byte) {rounds : Nat}
    (hrounds : ctx.chunk.length ≤ rounds)
    : aeadDecrypt.loop K ctx plaintext rounds
      = (if ctx.chunk ≠ [] ∧ plaintext ++ (K.completed ctx.chunk.length ps).flatten = [] then .CRYPTO_NEED_MORE
          else .CRYPTO_OK (plaintext ++ (K.completed ctx.chunk.length ps).flatten),
        K.advance ctx (K.completed ctx.chunk.length ps)) := by
  induction rounds generalizing ctx plaintext ps bytes with
  | zero =>
    have hchunk : ctx.chunk = [] := List.eq_nil_of_length_eq_zero (by omega)
    rw [hchunk, List.length_nil, completed_zero, advance_nil]
    simp [aeadDecrypt.loop]
  | succ rounds ih =>
    by_cases hchunk : ctx.chunk = []
    . rw [hchunk, List.length_nil, completed_zero, advance_nil]
      simp [aeadDecrypt.loop, hchunk]
    . rw [aeadDecrypt.loop, if_neg hchunk]
      cases ps with
      | nil =>
        have hheld := h.held
        cases h.chunked with
        | nil => simp [hchunk] at hheld
      | cons p ps =>
        by_cases hle : K.sealedLen p ≤ ctx.chunk.length
        . have hcompleted : K.completed ctx.chunk.length (p :: ps)
              = p :: K.completed (ctx.chunk.drop (K.sealedLen p)).length ps := by
            rw [completed, if_pos hle, List.length_drop]
          have hpos : 0 < K.sealedLen p := by
            rw [sealedLen, CHUNK_SIZE_LEN]
            omega
          have hp : p ≠ [] := by
            cases h.chunked with
            | cons ne => exact ne
          rw [hcompleted, h.chunked.decrypt h.held hle, advance_cons]
          dsimp only
          rw [ih h.next (plaintext ++ p) (by rw [List.length_drop]; omega)]
          simp [hp]
        . have hcompleted : K.completed ctx.chunk.length (p :: ps) = [] := by
            rw [completed, if_neg hle]
          rw [hcompleted, h.chunked.needMore h.held (by omega), advance_nil]
          simp only [ne_eq, hchunk, not_false_eq_true, List.flatten_nil, List.append_nil, true_and]
          split <;> rfl

theorem Chunked.ne_nil {skey nonce p : List Byte} (h : K.Chunked skey nonce ps bytes) (hp : p ∈ ps) : p ≠ [] := by
  induction h with
  | nil nonce => contradiction
  | cons ne le encryptLen encrypt rest ih =>
    rcases List.mem_cons.mp hp with rfl | hp
    . exact ne
    . exact ih hp

theorem completed_isPrefix (n : Nat) (ps : List (List Byte)) : K.completed n ps <+: ps := by
  induction ps generalizing n with
  | nil => exact List.nil_prefix
  | cons p ps ih =>
    rw [completed]
    split
    . exact List.cons_prefix_cons.mpr ⟨rfl, ih _⟩
    . exact List.nil_prefix

theorem flatten_eq_nil_iff {done : List (List Byte)} (h : ∀ p ∈ done, p ≠ []) : done.flatten = [] ↔ done = [] := by
  rw [List.flatten_eq_nil_iff]
  constructor
  . intro hnil
    apply List.eq_nil_iff_forall_not_mem.mpr
    intro p hp
    exact h p hp (hnil p hp)
  . intro hnil
    simp [hnil]

theorem Chunked.drop {skey : List Byte} {done rest : List (List Byte)}
    (h : K.Chunked skey (K.nonceAt n) (done ++ rest) bytes)
    : K.Chunked skey (K.nonceAt (n + 2 * done.length)) rest (bytes.drop (done.map K.sealedLen).sum) := by
  induction done generalizing n bytes with
  | nil => simpa using h
  | cons p done ih =>
    have hnext : K.Holds (ε := Unit) ⟨0, 0, (), [], [], skey, K.nonceAt n⟩ (p :: (done ++ rest)) bytes :=
      ⟨h, List.nil_prefix⟩
    have htail := ih (n := n + 2) (by rw [nonceAt_succ, nonceAt_succ]; exact hnext.next.chunked)
    have hlen : n + 2 * (p :: done).length = n + 2 + 2 * done.length := by
      rw [List.length_cons]
      omega
    rw [hlen, List.map_cons, List.sum_cons, ← List.drop_drop]
    exact htail

section

variable (hsalt : salt.length = K.keyLen) (hfresh : K.ppbloomCheck salt = false)
  (hbytes : K.Chunked (K.hkdf salt) (K.nonceAt 0) ps bytes)

include hsalt hfresh hbytes

theorem chunks_taken (dCtx : CipherCtx ε) {x : List Byte} {m : Nat} (hx : x <+: salt ++ bytes)
    (hm : m < x.length - K.keyLen)
    : let done := K.completed m ps
      let all := K.completed (x.length - K.keyLen) ps
      (aeadDecrypt.chunks K (K.taken dCtx x done)).dCtx = K.taken dCtx x all
        ∧ (aeadDecrypt.chunks K (K.taken dCtx x done)).res
          = if all.flatten = done.flatten then .CRYPTO_NEED_MORE
            else .CRYPTO_OK (all.flatten.drop done.flatten.length) := by
  intro done all
  obtain ⟨rest, hps⟩ := completed_isPrefix (K := K) m ps
  have hsum : (done.map K.sealedLen).sum ≤ m := sum_sealedLen_completed_le m ps
  have htake : x.take K.keyLen = salt := by
    rw [take_prefix_eq hx (by omega), ← hsalt, List.take_left]
  have hlen : (x.drop (K.keyLen + (done.map K.sealedLen).sum)).length
      = m - (done.map K.sealedLen).sum + (x.length - K.keyLen - m) := by
    rw [List.length_drop]
    omega
  -- The chunks that these bytes complete come after those that have been taken off.
  have hall : all = done ++ K.completed (x.drop (K.keyLen + (done.map K.sealedLen).sum)).length rest := by
    have hdone : K.completed m (done ++ rest) = done := by rw [hps]
    have hsub : m + (x.length - K.keyLen - m) = x.length - K.keyLen := by omega
    rw [hlen, ← completed_append hdone, hps, hsub]
  generalize hmore : K.completed (x.drop (K.keyLen + (done.map K.sealedLen).sum)).length rest = more at hall
  have hholds : K.Holds (K.taken dCtx x done) rest (bytes.drop (done.map K.sealedLen).sum) := by
    constructor
    case chunked =>
      rw [← hps] at hbytes
      have := hbytes.drop
      rw [Nat.zero_add] at this
      rw [taken, htake]
      exact this
    case held =>
      have := hx.drop (K.keyLen + (done.map K.sealedLen).sum)
      rwa [← List.drop_drop, ← List.drop_drop, ← hsalt, List.drop_left, hsalt, List.drop_drop] at this
  have hchunk : (K.taken dCtx x done).chunk ≠ [] := by
    intro hnil
    have := congrArg List.length hnil
    rw [taken, hlen, List.length_nil] at this
    omega
  have hne : ∀ p ∈ more, p ≠ [] := by
    intro p hp
    apply hholds.chunked.ne_nil
    rw [← hmore] at hp
    exact (completed_isPrefix _ rest).subset hp
  have hloop := hholds.loop_eq [] (Nat.le_refl _)
  have hmore' : K.completed (K.taken dCtx x done).chunk.length rest = more := hmore
  rw [List.nil_append, hmore'] at hloop
  have hsalt' : (K.taken dCtx x done).salt = salt := htake
  by_cases hnil : more = []
  . have hnone : aeadDecrypt.loop K (K.taken dCtx x done) [] (K.taken dCtx x done).chunk.length
        = (.CRYPTO_NEED_MORE, K.taken dCtx x done) := by
      rw [hloop, hnil, advance_nil, if_pos ⟨hchunk, rfl⟩]
    have hsame : all = done := by rw [hall, hnil, List.append_nil]
    unfold aeadDecrypt.chunks
    rw [hnone, hsame, if_pos rfl]
    exact ⟨rfl, rfl⟩
  . have hsome : aeadDecrypt.loop K (K.taken dCtx x done) [] (K.taken dCtx x done).chunk.length
        = (.CRYPTO_OK more.flatten, K.advance (K.taken dCtx x done) more) := by
      rw [hloop, if_neg fun hand => hnil ((flatten_eq_nil_iff hne).mp hand.2)]
    have hctx : { K.advance (K.taken dCtx x done) more with init := 2 } = K.taken dCtx x all := by
      have hlength : 2 * all.length = 2 * more.length + 2 * done.length := by
        rw [hall, List.length_append]
        omega
      have hall' : all ≠ [] := by simp [hall, hnil]
      unfold advance taken nonceAt
      rw [if_neg hall', hlength, Function.iterate_add_apply, hall, List.map_append, List.sum_append, List.drop_drop,
        Nat.add_assoc]
    have hflatten : all.flatten ≠ done.flatten := by
      rw [hall, List.flatten_append]
      intro heq
      exact hnil ((flatten_eq_nil_iff hne).mp (List.append_right_eq_self.mp heq))
    have hdrop : all.flatten.drop done.flatten.length = more.flatten := by
      rw [hall, List.flatten_append, List.drop_left]
    unfold aeadDecrypt.chunks
    rw [hsome, if_neg hflatten, hdrop]
    dsimp only
    split
    . rw [if_neg (by rw [advance, hsalt', hfresh]; exact Bool.false_ne_true)]
      exact ⟨hctx, rfl⟩
    . next hinit =>
      have hinit' : (K.advance (K.taken dCtx x done) more).init = 2 := by
        unfold advance taken at hinit ⊢
        dsimp only at hinit ⊢
        split at hinit
        . contradiction
        . next hdone => rw [if_neg hdone]
      rw [← hctx, ← hinit']
      exact ⟨rfl, rfl⟩

theorem decrypt_ctxAfter (hinit : dCtx.init = 0) (hx : c ++ d <+: salt ++ bytes) (hd : d ≠ [])
    : (aeadDecrypt K (K.ctxAfter dCtx ps c) d).dCtx = K.ctxAfter dCtx ps (c ++ d)
      ∧ (aeadDecrypt K (K.ctxAfter dCtx ps c) d).res
        = if K.plainAfter ps (c ++ d) = K.plainAfter ps c then .CRYPTO_NEED_MORE
          else .CRYPTO_OK ((K.plainAfter ps (c ++ d)).drop (K.plainAfter ps c).length) := by
  have hpos := List.length_pos_iff.mpr hd
  have hlength : (c ++ d).length = c.length + d.length := List.length_append
  by_cases hc : c.length ≤ K.keyLen
  . have hzero : c.length - K.keyLen = 0 := Nat.sub_eq_zero_of_le hc
    have hctx : K.ctxAfter dCtx ps c = { dCtx with chunk := c } := if_pos hc
    rw [hctx]
    unfold aeadDecrypt
    dsimp only
    rw [if_pos hinit]
    split
    . next hle =>
      have hzero' : (c ++ d).length - K.keyLen = 0 := Nat.sub_eq_zero_of_le hle
      rw [plainAfter, plainAfter, hzero, hzero', if_pos rfl, ctxAfter, if_pos hle]
      exact ⟨rfl, rfl⟩
    . next hlt =>
      have htake : (c ++ d).take K.keyLen = salt := by
        rw [take_prefix_eq hx (by omega), ← hsalt, List.take_left]
      have hcheck : ¬K.ppbloomCheck (aeadCipherCtxSetKey K { dCtx with
          chunk := c ++ d, salt := (c ++ d).take K.keyLen }).salt = true := by
        rw [aeadCipherCtxSetKey, htake, hfresh]
        exact Bool.false_ne_true
      rw [if_neg hcheck]
      have hchunks := chunks_taken hsalt hfresh hbytes dCtx hx (m := 0) (by omega)
      dsimp only at hchunks
      rw [plainAfter, plainAfter, hzero, ctxAfter, if_neg hlt]
      rw [completed_zero] at hchunks ⊢
      exact hchunks
  . have hlt : ¬(c ++ d).length ≤ K.keyLen := by omega
    have hctx : K.ctxAfter dCtx ps c = K.taken dCtx c (K.completed (c.length - K.keyLen) ps) := if_neg hc
    have hsum : ((K.completed (c.length - K.keyLen) ps).map K.sealedLen).sum ≤ c.length - K.keyLen :=
      sum_sealedLen_completed_le _ ps
    have hchunks := chunks_taken hsalt hfresh hbytes dCtx hx (m := c.length - K.keyLen) (by omega)
    have hne : (K.taken dCtx c (K.completed (c.length - K.keyLen) ps)).init ≠ 0 := by
      unfold taken
      dsimp only
      split
      . decide
      . decide
    have hdecrypt : aeadDecrypt K (K.taken dCtx c (K.completed (c.length - K.keyLen) ps)) d
        = aeadDecrypt.chunks K (K.taken dCtx (c ++ d) (K.completed (c.length - K.keyLen) ps)) := by
      unfold aeadDecrypt
      dsimp only
      rw [if_neg hne]
      unfold taken
      rw [List.take_append_of_le_length (by omega), List.drop_append_of_le_length (by omega)]
    rw [hctx, ctxAfter, if_neg hlt, hdecrypt]
    exact hchunks

theorem streams_of_chunked (hinit : dCtx.init = 0) (hchunk : dCtx.chunk = [])
    : (cryptoInit (.aead K)).Streams dCtx (salt ++ bytes) (K.ctxAfter dCtx ps) (K.plainAfter ps) where
  ctx_nil := by
    rw [ctxAfter, List.length_nil, if_pos (Nat.zero_le _), ← hchunk]
  plain_nil := by
    rw [plainAfter, List.length_nil, Nat.zero_sub, completed_zero]
    rfl
  mono c d _ := by
    obtain ⟨rest, hps⟩ := completed_isPrefix (K := K) (c.length - K.keyLen) ps
    obtain ⟨k, hk⟩ : ∃ k, (c ++ d).length - K.keyLen = c.length - K.keyLen + k := by
      rw [List.length_append]
      exact ⟨c.length + d.length - K.keyLen - (c.length - K.keyLen), by omega⟩
    have hdone : K.completed (c.length - K.keyLen) (K.completed (c.length - K.keyLen) ps ++ rest)
        = K.completed (c.length - K.keyLen) ps := by rw [hps]
    have happend := completed_append hdone k
    rw [hps] at happend
    rw [plainAfter, plainAfter, hk, happend, List.flatten_append]
    exact List.prefix_append _ _
  dCtx _ _ hx hd := (decrypt_ctxAfter hsalt hfresh hbytes hinit hx hd).1
  res _ _ hx hd := (decrypt_ctxAfter hsalt hfresh hbytes hinit hx hd).2

end

theorem Chunked.length_eq {skey nonce : List Byte} (h : K.Chunked skey nonce ps bytes)
    : bytes.length = (ps.map K.sealedLen).sum := by
  induction h with
  | nil nonce => rfl
  | cons ne le encryptLen encrypt rest ih =>
    have hlen := K.length_encrypt encryptLen
    have hchunk := K.length_encrypt encrypt
    rw [length_chunkLenBuf] at hlen
    rw [List.length_append, List.length_append, ih, List.map_cons, List.sum_cons, sealedLen]
    omega

theorem completed_sum (ps : List (List Byte)) : K.completed (ps.map K.sealedLen).sum ps = ps := by
  induction ps with
  | nil => rfl
  | cons p ps ih =>
    rw [List.map_cons, List.sum_cons, completed, if_pos (Nat.le_add_right _ _), Nat.add_sub_cancel_left, ih]

end AeadCipher

theorem Crypto.Streams.of_isPrefix {κ : Type} {C : Crypto κ} {dCtx : κ} {S S' : List Byte} {ctx : List Byte → κ}
    {plain : List Byte → List Byte} (h : C.Streams dCtx S ctx plain) (hS : S' <+: S)
    : C.Streams dCtx S' ctx plain where
  ctx_nil := h.ctx_nil
  plain_nil := h.plain_nil
  mono c d hx := h.mono c d (hx.trans hS)
  dCtx c d hx := h.dCtx c d (hx.trans hS)
  res c d hx := h.res c d (hx.trans hS)

theorem Crypto.Streams.received {κ : Type} {C : Crypto κ} {dCtx : κ} {S : List Byte} {ctx : List Byte → κ}
    {plain : List Byte → List Byte} (h : C.Streams dCtx S ctx plain) {c : List Byte} {segs : List (List Byte)}
    (hsegs : ∀ seg ∈ segs, seg ≠ []) (hS : c ++ segs.flatten <+: S)
    : plain c ++ C.received (ctx c) segs = plain (c ++ segs.flatten) := by
  induction segs generalizing c with
  | nil => rw [Crypto.received, List.flatten_nil, List.append_nil, List.append_nil]
  | cons seg segs ih =>
    rw [List.flatten_cons, ← List.append_assoc] at hS ⊢
    have hseg : c ++ seg <+: S := (List.prefix_append _ _).trans hS
    have hne := hsegs seg List.mem_cons_self
    have hrest := ih (fun s hs => hsegs s (List.mem_cons_of_mem seg hs)) hS
    rw [Crypto.received, h.res c seg hseg hne, h.dCtx c seg hseg hne, ← hrest]
    obtain ⟨more, hmore⟩ := h.mono c seg hseg
    by_cases heq : plain (c ++ seg) = plain c
    . rw [if_pos heq, heq]
    . rw [if_neg heq, ← hmore, List.drop_left, List.append_assoc]

theorem AeadCipher.streams_of_encodeAll {K : AeadCipher} {eCtx eCtx' dCtx : CipherCtx ε} {ps : List (List Byte)}
    {ct : List Byte} (he_init : eCtx.init = 0) (hsalt : eCtx.salt.length = K.keyLen)
    (hps : ∀ p ∈ ps, p ≠ [] ∧ p.length ≤ CHUNK_SIZE_MASK) (hct : encodeAll (aeadEncrypt K) eCtx ps = some (ct, eCtx'))
    (hd_init : dCtx.init = 0) (hchunk : dCtx.chunk = []) (hfresh : K.ppbloomCheck eCtx.salt = false)
    : (cryptoInit (.aead K)).Streams dCtx ct (K.ctxAfter dCtx ps) (K.plainAfter ps)
      ∧ K.plainAfter ps ct = ps.flatten := by
  cases ps with
  | nil =>
    have hnil : [] = ct := (Prod.mk.inj (Option.some.inj hct)).1
    have hstreams := AeadCipher.streams_of_chunked hsalt hfresh (.nil _) hd_init hchunk
    rw [← hnil]
    exact ⟨hstreams.of_isPrefix List.nil_prefix, rfl⟩
  | cons p ps =>
    obtain ⟨bytes, rfl, hbytes⟩ := AeadCipher.chunked_of_encodeAll_cons he_init hps hct
    refine ⟨AeadCipher.streams_of_chunked hsalt hfresh hbytes hd_init hchunk, ?_⟩
    rw [AeadCipher.plainAfter, List.length_append, hsalt, Nat.add_sub_cancel_left, hbytes.length_eq,
      AeadCipher.completed_sum]

/--
The bytes that an AEAD cipher makes of chunks are decrypted as the return codes of `decrypt` document it, however
they are cut, and what comes out is what went in.
-/
theorem aead_streams {K : AeadCipher} {eCtx eCtx' dCtx : CipherCtx ε} {ps : List (List Byte)} {ct : List Byte}
    (he_init : eCtx.init = 0) (hsalt : eCtx.salt.length = K.keyLen)
    (hps : ∀ p ∈ ps, p ≠ [] ∧ p.length ≤ CHUNK_SIZE_MASK)
    (hct : encodeAll (cryptoInit (.aead K)).encrypt eCtx ps = some (ct, eCtx'))
    (hd_init : dCtx.init = 0) (hchunk : dCtx.chunk = []) (hfresh : K.ppbloomCheck eCtx.salt = false)
    : (cryptoInit (.aead K)).Streams dCtx ct (K.ctxAfter dCtx ps) (K.plainAfter ps)
      ∧ ∀ segs, (∀ seg ∈ segs, seg ≠ []) → segs.flatten = ct
        → (cryptoInit (.aead K)).received dCtx segs = ps.flatten := by
  obtain ⟨hstreams, hplain⟩ := AeadCipher.streams_of_encodeAll he_init hsalt hps hct hd_init hchunk hfresh
  refine ⟨hstreams, ?_⟩
  intro segs hsegs hS
  have hreceived := hstreams.received (c := []) hsegs (by rw [hS]; exact List.prefix_refl ct)
  rw [hstreams.plain_nil, hstreams.ctx_nil, List.nil_append, List.nil_append, hS] at hreceived
  rw [hreceived, hplain]

theorem aead_streams_two_chunks
    : let K := AeadCipher.zero
      let ps : List (List Byte) := [[1, 2], [3]]
      let chunk (p : List Byte) := chunkLenBuf p.length ++ List.replicate 16 0 ++ (p ++ List.replicate 16 0)
      let ct := List.replicate 32 7 ++ chunk [1, 2] ++ chunk [3]
      (cryptoInit (.aead K)).Streams (CipherCtx.new []) ct (K.ctxAfter (CipherCtx.new []) ps) (K.plainAfter ps)
        ∧ ∀ segs, (∀ seg ∈ segs, seg ≠ []) → segs.flatten = ct
          → (cryptoInit (.aead K)).received (CipherCtx.new []) segs = [1, 2, 3] := by
  intro K ps chunk ct
  have hct : encodeAll (cryptoInit (.aead K)).encrypt (CipherCtx.new (List.replicate 32 7)) ps
      = some (ct, { CipherCtx.new (List.replicate 32 7) with
        init := 1, skey := List.replicate 32 7, nonce := K.nonceAt 4 }) := by
    decide +kernel
  exact aead_streams rfl rfl (by decide) hct rfl rfl rfl

end Xsocks
