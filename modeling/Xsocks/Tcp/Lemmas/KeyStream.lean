import Xsocks.Lib.KeyStream
import Xsocks.Tcp.Lemmas.AeadStream

/-!
This module contains what the stream ciphers make of a stream that is sent and received in pieces: the same as of the
whole stream at once.
-/

namespace Xsocks

open Chunks KeyStream

variable {ε : Type}

namespace StreamCipher

/--
The primitives handle a text byte after byte. `ks nonce` is the key stream of the ciphers of libsodium, and `limit` is
how long a text a nonce is good for.
-/
structure Lawful (K : StreamCipher ε) (ks : List Byte → Nat → Byte) (limit : Nat) : Prop where
  limit_lt : limit < 2 ^ 64
  update_append : ∀ evp x y, K.cipherCtxUpdate evp (x ++ y)
    = match K.cipherCtxUpdate evp x with
      | none => none
      | some (x', evp') =>
        match K.cipherCtxUpdate evp' y with
        | none => none
        | some (y', evp'') => some (x' ++ y', evp'')
  xor : ∀ nonce ic m, SODIUM_BLOCK_SIZE * ic + m.length ≤ limit
    → K.cryptoStreamXorIc nonce ic m = xorAt (ks nonce) (SODIUM_BLOCK_SIZE * ic) m

variable {K : StreamCipher ε} {ks : List Byte → Nat → Byte} {limit : Nat} {ctx dCtx : CipherCtx ε}
  {S c d data nonce : List Byte}

theorem Lawful.streamXor_eq (h : K.Lawful ks limit) (hle : ctx.counter + data.length ≤ limit)
    : streamXor K ctx data = (xorAt (ks ctx.nonce) ctx.counter data,
        { ctx with counter := (ctx.counter + data.length) % 2 ^ 64 }) := by
  have hpos : SODIUM_BLOCK_SIZE * (ctx.counter / SODIUM_BLOCK_SIZE) + ctx.counter % SODIUM_BLOCK_SIZE = ctx.counter :=
    Nat.div_add_mod ctx.counter SODIUM_BLOCK_SIZE
  unfold streamXor
  dsimp only
  rw [h.xor _ _ _ (by rw [List.length_append, List.length_replicate]; omega), drop_xorAt List.length_replicate, hpos]

def process (K : StreamCipher ε) (ctx : CipherCtx ε) (data : List Byte) : Option (List Byte × CipherCtx ε) :=
  streamEncrypt.update K data ctx

theorem process_keeps {out : List Byte} {ctx' : CipherCtx ε} (h : K.process ctx data = some (out, ctx'))
    : out.length = data.length ∧ ctx' = { ctx with evp := ctx'.evp, counter := ctx'.counter } := by
  unfold process streamEncrypt.update at h
  split at h
  . simp only [streamXor, Option.some.injEq, Prod.mk.injEq] at h
    rw [← h.1, ← h.2]
    simp only [List.length_drop, K.length_xor, List.length_append, List.length_replicate, and_true]
    omega
  . split at h
    . contradiction
    . next out' evp heq =>
      simp only [Option.some.injEq, Prod.mk.injEq] at h
      rw [← h.1, ← h.2]
      exact ⟨K.length_update heq, rfl⟩

theorem process_counter_le {out : List Byte} {ctx' : CipherCtx ε} (h : K.process ctx data = some (out, ctx'))
    : ctx'.counter ≤ ctx.counter + data.length := by
  unfold process streamEncrypt.update at h
  split at h
  . simp only [streamXor, Option.some.injEq, Prod.mk.injEq] at h
    rw [← h.2]
    exact Nat.mod_le _ _
  . split at h
    . contradiction
    . simp only [Option.some.injEq, Prod.mk.injEq] at h
      rw [← h.2]
      exact Nat.le_add_right _ _

theorem process_init (i : Nat)
    : K.process { ctx with init := i } data
      = (K.process ctx data).map fun (out, ctx') => (out, { ctx' with init := i }) := by
  unfold process streamEncrypt.update
  split
  . rfl
  . dsimp only
    split <;> rfl

theorem Lawful.process_append (h : K.Lawful ks limit) (hle : ctx.counter + c.length + d.length ≤ limit)
    : K.process ctx (c ++ d)
      = match K.process ctx c with
        | none => none
        | some (out, ctx') =>
          match K.process ctx' d with
          | none => none
          | some (out', ctx'') => some (out ++ out', ctx'') := by
  unfold process streamEncrypt.update
  by_cases hmethod : SALSA20 ≤ K.method
  . have hcounter : (ctx.counter + c.length) % 2 ^ 64 = ctx.counter + c.length := by
      have := h.limit_lt
      exact Nat.mod_eq_of_lt (by omega)
    rw [if_pos hmethod, if_pos hmethod, h.streamXor_eq (by rw [List.length_append]; omega), h.streamXor_eq (by omega)]
    dsimp only
    rw [if_pos hmethod, h.streamXor_eq (by dsimp only; omega)]
    dsimp only
    rw [hcounter, xorAt_append, List.length_append, Nat.add_assoc]
  . rw [if_neg hmethod, if_neg hmethod, h.update_append]
    cases K.cipherCtxUpdate ctx.evp c with
    | none => rfl
    | some result =>
      dsimp only
      rw [if_neg hmethod]
      cases K.cipherCtxUpdate result.2 d with
      | none => rfl
      | some result' => rfl

theorem update_of_process {out : List Byte} {ctx' : CipherCtx ε} (h : K.process ctx data = some (out, ctx'))
    (hne : data ≠ []) (hcheck : K.ppbloomCheck ctx.nonce = false)
    : (streamDecrypt.update K ctx data).res = .CRYPTO_OK out
      ∧ (streamDecrypt.update K ctx data).dCtx
        = if ctx.init = 1 ∧ RC4_MD5 ≤ K.method then { ctx' with init := 2 } else ctx' := by
  obtain ⟨-, hctx'⟩ := process_keeps h
  have hfinish : ∀ demand, (streamDecrypt.finish K ctx' out demand).res = .CRYPTO_OK out
      ∧ (streamDecrypt.finish K ctx' out demand).dCtx
        = if ctx.init = 1 ∧ RC4_MD5 ≤ K.method then { ctx' with init := 2 } else ctx' := by
    intro demand
    have hinit : ctx'.init = ctx.init := by rw [hctx']
    have hnonce : ctx'.nonce = ctx.nonce := by rw [hctx']
    unfold streamDecrypt.finish
    rw [hinit, hnonce]
    split
    . rw [if_neg (by rw [hcheck]; exact Bool.false_ne_true)]
      exact ⟨rfl, rfl⟩
    . exact ⟨rfl, rfl⟩
  unfold process streamEncrypt.update at h
  unfold streamDecrypt.update
  rw [if_neg (by have := List.length_pos_iff.mpr hne; omega)]
  split at h
  . next hmethod =>
    rw [Option.some.injEq] at h
    rw [if_pos hmethod, h]
    exact hfinish _
  . next hmethod =>
    rw [if_neg hmethod]
    split at h
    . contradiction
    . next out' evp heq =>
      simp only [Option.some.injEq, Prod.mk.injEq] at h
      rw [h.1, h.2]
      exact hfinish _

def started (K : StreamCipher ε) (dCtx : CipherCtx ε) (c : List Byte) : CipherCtx ε :=
  let nonce := c.take K.nonceLen
  { dCtx with chunk := nonce, nonce := nonce, evp := K.cipherCtxSetNonce nonce, counter := 0, init := 1 }

def decrypted (K : StreamCipher ε) (dCtx : CipherCtx ε) (c : List Byte) : Option (List Byte × CipherCtx ε) :=
  K.process (K.started dCtx c) (c.drop K.nonceLen)

/-- What the bytes `c` of a stream have made of the context `dCtx`. -/
def ctxAfter (K : StreamCipher ε) (dCtx : CipherCtx ε) (c : List Byte) : CipherCtx ε :=
  if c.length < K.nonceLen ∨ c = [] then { dCtx with chunk := c }
  else if c.length = K.nonceLen then K.started dCtx c
  else
    match K.decrypted dCtx c with
    | none => dCtx
    | some (_, ctx) => { ctx with init := if RC4_MD5 ≤ K.method then 2 else 1 }

def plainAfter (K : StreamCipher ε) (c : List Byte) : List Byte :=
  (streamDecryptAll K c).getD []

theorem plainAfter_of_le (hle : c.length ≤ K.nonceLen) : K.plainAfter c = [] := by
  rw [plainAfter, streamDecryptAll, if_pos hle]
  rfl

theorem Lawful.streamDecryptAll_eq (h : K.Lawful ks limit) (dCtx : CipherCtx ε) (hlt : K.nonceLen < c.length)
    (hle : c.length ≤ limit) (hcheck : K.ppbloomCheck (c.take K.nonceLen) = false)
    : streamDecryptAll K c = (K.decrypted dCtx c).map Prod.fst := by
  unfold streamDecryptAll decrypted process streamEncrypt.update
  rw [if_neg (Nat.not_le_of_lt hlt)]
  dsimp only
  rw [if_neg (by rw [hcheck]; exact Bool.false_ne_true)]
  split
  . have hlen : (c.drop K.nonceLen).length ≤ limit := by
      rw [List.length_drop]
      omega
    have hcounter : (K.started dCtx c).counter = 0 := rfl
    rw [h.streamXor_eq (by rw [hcounter]; omega), h.xor _ _ _ (by omega)]
    rfl
  . unfold started
    dsimp only
    split
    . rfl
    . rfl

section

variable (h : K.Lawful ks limit) (hS : S.length ≤ limit) (hcheck : K.ppbloomCheck (S.take K.nonceLen) = false)
  {out : List Byte} {last : CipherCtx ε} (hout : K.decrypted dCtx S = some (out, last))

include h hS hout

theorem decrypted_append (hc : c ++ d <+: S) (hle : K.nonceLen ≤ c.length)
    : ∃ out' ctx' out'' ctx'', K.decrypted dCtx c = some (out', ctx') ∧ K.process ctx' d = some (out'', ctx'')
        ∧ K.decrypted dCtx (c ++ d) = some (out' ++ out'', ctx'') := by
  obtain ⟨rest, rfl⟩ := hc
  rw [List.length_append, List.length_append] at hS
  have htake : (c ++ d ++ rest).take K.nonceLen = c.take K.nonceLen := by
    rw [List.append_assoc, List.take_append_of_le_length hle]
  have htake' : (c ++ d).take K.nonceLen = c.take K.nonceLen := List.take_append_of_le_length hle
  have hstarted : ∀ {x : List Byte}, x.take K.nonceLen = c.take K.nonceLen
      → K.started dCtx x = K.started dCtx c := by
    intro x hx
    rw [started, started, hx]
  have hdrop : (c ++ d ++ rest).drop K.nonceLen = c.drop K.nonceLen ++ d ++ rest := by
    rw [List.append_assoc, List.append_assoc, List.drop_append_of_le_length hle]
  have hdrop' : (c ++ d).drop K.nonceLen = c.drop K.nonceLen ++ d := List.drop_append_of_le_length hle
  have hlen : (c.drop K.nonceLen).length ≤ c.length := by
    rw [List.length_drop]
    omega
  have hall : ∀ {x y : List Byte}, x.length + y.length ≤ limit → K.process (K.started dCtx c) (x ++ y)
      = match K.process (K.started dCtx c) x with
        | none => none
        | some (out, ctx') =>
          match K.process ctx' y with
          | none => none
          | some (out', ctx'') => some (out ++ out', ctx'') := by
    intro x y hle
    apply h.process_append
    change 0 + x.length + y.length ≤ limit
    omega
  rw [decrypted, hstarted htake, hdrop, hall (by rw [List.length_append]; omega)] at hout
  rw [decrypted, decrypted, hstarted htake', hdrop', hall (by omega)]
  rw [hall (by omega)] at hout
  cases hfirst : K.process (K.started dCtx c) (c.drop K.nonceLen) with
  | none => simp [hfirst] at hout
  | some result =>
    obtain ⟨out', ctx'⟩ := result
    rw [hfirst] at hout
    dsimp only at hout
    cases hsecond : K.process ctx' d with
    | none => simp [hsecond] at hout
    | some result => exact ⟨out', ctx', result.1, result.2, rfl, hsecond, by dsimp only; rw [hsecond]⟩

theorem decrypted_isPrefix (hc : c <+: S) (hle : K.nonceLen ≤ c.length)
    : ∃ out' ctx', K.decrypted dCtx c = some (out', ctx') := by
  obtain ⟨out', ctx', -, -, heq, -⟩ := decrypted_append (d := []) h hS hout (by rwa [List.append_nil]) hle
  exact ⟨out', ctx', heq⟩

omit hout in
theorem plainAfter_of_decrypted (hcheck : K.ppbloomCheck (S.take K.nonceLen) = false) (hc : c <+: S)
    (hlt : K.nonceLen < c.length) {out' : List Byte} {ctx' : CipherCtx ε} (heq : K.decrypted dCtx c = some (out', ctx'))
    : K.plainAfter c = out' := by
  have htake : c.take K.nonceLen = S.take K.nonceLen := AeadCipher.take_prefix_eq hc (Nat.le_of_lt hlt)
  have hle : c.length ≤ limit := Nat.le_trans hc.length_le hS
  rw [plainAfter, h.streamDecryptAll_eq dCtx hlt hle (by rw [htake]; exact hcheck), heq]
  rfl

theorem update_started (hcheck : K.ppbloomCheck (S.take K.nonceLen) = false) (hc : c <+: S)
    (hle : K.nonceLen ≤ c.length) (hne : c ≠ [])
    : (streamDecrypt.update K (K.started dCtx c) (c.drop K.nonceLen)).dCtx = K.ctxAfter dCtx c
      ∧ (streamDecrypt.update K (K.started dCtx c) (c.drop K.nonceLen)).res
        = if K.plainAfter c = [] then .CRYPTO_NEED_MORE else .CRYPTO_OK (K.plainAfter c) := by
  have htake : c.take K.nonceLen = S.take K.nonceLen := AeadCipher.take_prefix_eq hc hle
  have hnot : ¬(c.length < K.nonceLen ∨ c = []) := by
    rintro (hlt | hnil)
    . omega
    . exact hne hnil
  rw [ctxAfter, if_neg hnot]
  by_cases heq : c.length = K.nonceLen
  . have hdrop : c.drop K.nonceLen = [] := List.drop_eq_nil_of_le (Nat.le_of_eq heq)
    rw [if_pos heq, plainAfter_of_le (Nat.le_of_eq heq), if_pos rfl, hdrop]
    exact ⟨rfl, rfl⟩
  . have hlt : K.nonceLen < c.length := by omega
    obtain ⟨out', ctx', hdecrypted⟩ := decrypted_isPrefix h hS hout hc hle
    obtain ⟨hlength, hctx'⟩ := process_keeps hdecrypted
    have hdrop : c.drop K.nonceLen ≠ [] := by
      intro hnil
      rw [List.drop_eq_nil_iff] at hnil
      omega
    have hne' : out' ≠ [] := by
      rintro rfl
      exact hdrop (List.eq_nil_of_length_eq_zero hlength.symm)
    obtain ⟨hres, hdCtx⟩ := update_of_process hdecrypted hdrop (by rw [started, htake]; exact hcheck)
    rw [if_neg heq, plainAfter_of_decrypted h hS hcheck hc hlt hdecrypted, if_neg hne', hres, hdCtx, hdecrypted]
    refine ⟨?_, rfl⟩
    dsimp only
    by_cases hmethod : RC4_MD5 ≤ K.method
    . rw [if_pos ⟨rfl, hmethod⟩, if_pos hmethod]
    . rw [if_neg fun hand => hmethod hand.2, if_neg hmethod, hctx']
      rfl

theorem decrypt_ctxAfter (hcheck : K.ppbloomCheck (S.take K.nonceLen) = false) (hinit : dCtx.init = 0)
    (hc : c ++ d <+: S) (hd : d ≠ [])
    : (streamDecrypt K (K.ctxAfter dCtx c) d).dCtx = K.ctxAfter dCtx (c ++ d)
      ∧ (streamDecrypt K (K.ctxAfter dCtx c) d).res
        = if K.plainAfter (c ++ d) = K.plainAfter c then .CRYPTO_NEED_MORE
          else .CRYPTO_OK ((K.plainAfter (c ++ d)).drop (K.plainAfter c).length) := by
  have hpos := List.length_pos_iff.mpr hd
  have hne : c ++ d ≠ [] := by simp [hd]
  by_cases hfresh : c.length < K.nonceLen ∨ c = []
  . have hle : c.length ≤ K.nonceLen := by
      rcases hfresh with hlt | hnil
      . exact Nat.le_of_lt hlt
      . rw [hnil]
        exact Nat.zero_le _
    have hctx : K.ctxAfter dCtx c = { dCtx with chunk := c } := if_pos hfresh
    have hchunk : c ++ d.take (min (K.nonceLen - c.length) d.length) = (c ++ d).take K.nonceLen := by
      rw [List.take_append, List.take_of_length_le hle, ← List.take_eq_take_min]
    have hdrop : d.drop (min (K.nonceLen - c.length) d.length) = (c ++ d).drop K.nonceLen := by
      rw [List.drop_append, List.drop_eq_nil_of_le hle, List.nil_append]
      by_cases hmin : K.nonceLen - c.length ≤ d.length
      . rw [Nat.min_eq_left hmin]
      . rw [List.drop_eq_nil_of_le (by omega), List.drop_eq_nil_of_le (by omega)]
    rw [hctx, plainAfter_of_le hle, List.length_nil, List.drop_zero]
    unfold streamDecrypt
    dsimp only
    rw [if_pos hinit, hchunk, hdrop, List.length_take]
    by_cases hmore : (c ++ d).length < K.nonceLen
    . rw [if_pos (by omega), plainAfter_of_le (Nat.le_of_lt hmore), if_pos rfl, ctxAfter, if_pos (.inl hmore),
        List.take_of_length_le (Nat.le_of_lt hmore)]
      exact ⟨rfl, rfl⟩
    . have hge : K.nonceLen ≤ (c ++ d).length := Nat.le_of_not_lt hmore
      have htake : (c ++ d).take K.nonceLen = S.take K.nonceLen := AeadCipher.take_prefix_eq hc hge
      rw [if_neg (by omega), if_neg (by rw [htake, hcheck]; simp)]
      exact update_started h hS hout hcheck hc hge hne
  . have hge : K.nonceLen ≤ c.length := Nat.le_of_not_lt fun hlt => hfresh (.inl hlt)
    have hlength : (c ++ d).length = c.length + d.length := List.length_append
    by_cases heq : c.length = K.nonceLen
    . -- The IV ends where the last call did.
      have hctx : K.ctxAfter dCtx c = K.started dCtx (c ++ d) := by
        rw [ctxAfter, if_neg hfresh, if_pos heq, started, started, List.take_append_of_le_length hge]
      have hdrop : d = (c ++ d).drop K.nonceLen := by rw [← heq, List.drop_left]
      have hupdate := update_started h hS hout hcheck hc (by omega) hne
      rw [← hdrop] at hupdate
      rw [hctx, plainAfter_of_le (Nat.le_of_eq heq), List.length_nil, List.drop_zero]
      exact hupdate
    . have hlt : K.nonceLen < c.length := by omega
      have hlt' : K.nonceLen < (c ++ d).length := by omega
      have hprefix : c <+: S := (List.prefix_append c d).trans hc
      obtain ⟨out', ctx', out'', ctx'', hfirst, hsecond, hboth⟩ := decrypted_append h hS hout hc hge
      obtain ⟨hlength', -⟩ := process_keeps hsecond
      obtain ⟨-, hctx'⟩ := process_keeps hfirst
      have hnonce : ctx'.nonce = S.take K.nonceLen := by
        rw [hctx', ← AeadCipher.take_prefix_eq hprefix hge]
        rfl
      have hprocess : K.process (K.ctxAfter dCtx c) d
          = some (out'', { ctx'' with init := if RC4_MD5 ≤ K.method then 2 else 1 }) := by
        rw [ctxAfter, if_neg hfresh, if_neg heq, hfirst]
        dsimp only
        rw [process_init, hsecond]
        rfl
      have hctx : K.ctxAfter dCtx c = { ctx' with init := if RC4_MD5 ≤ K.method then 2 else 1 } := by
        rw [ctxAfter, if_neg hfresh, if_neg heq, hfirst]
      have hctx_both : K.ctxAfter dCtx (c ++ d) = { ctx'' with init := if RC4_MD5 ≤ K.method then 2 else 1 } := by
        have hnot : ¬((c ++ d).length < K.nonceLen ∨ c ++ d = []) := by
          rintro (hlt | hnil)
          . omega
          . exact hne hnil
        rw [ctxAfter, if_neg hnot, if_neg (by omega), hboth]
      have hrunning : (K.ctxAfter dCtx c).init ≠ 0 := by
        rw [hctx]
        dsimp only
        split
        . decide
        . decide
      have hdecrypt : streamDecrypt K (K.ctxAfter dCtx c) d = streamDecrypt.update K (K.ctxAfter dCtx c) d :=
        if_neg hrunning
      obtain ⟨hres, hdCtx⟩ := update_of_process hprocess hd (by rw [hctx]; dsimp only; rw [hnonce]; exact hcheck)
      have hmore : out' ++ out'' ≠ out' := by
        intro hnil
        rw [List.append_right_eq_self] at hnil
        rw [hnil, List.length_nil] at hlength'
        omega
      rw [hdecrypt, plainAfter_of_decrypted h hS hcheck hprefix hlt hfirst,
        plainAfter_of_decrypted h hS hcheck hc hlt' hboth,
        if_neg hmore, List.drop_left, hres, hdCtx, hctx, hctx_both]
      refine ⟨?_, rfl⟩
      dsimp only
      by_cases hmethod : RC4_MD5 ≤ K.method
      . rw [if_neg (by rw [if_pos hmethod]; exact fun hand => absurd hand.1 (by decide))]
      . rw [if_neg fun hand => hmethod hand.2]

theorem plainAfter_isPrefix (hcheck : K.ppbloomCheck (S.take K.nonceLen) = false) (hc : c ++ d <+: S)
    : K.plainAfter c <+: K.plainAfter (c ++ d) := by
  by_cases hle : c.length ≤ K.nonceLen
  . rw [plainAfter_of_le hle]
    exact List.nil_prefix
  . have hlt : K.nonceLen < c.length := Nat.lt_of_not_le hle
    have hlt' : K.nonceLen < (c ++ d).length := by
      rw [List.length_append]
      omega
    have hprefix : c <+: S := (List.prefix_append c d).trans hc
    obtain ⟨out', ctx', out'', ctx'', hfirst, -, hboth⟩ := decrypted_append h hS hout hc (Nat.le_of_lt hlt)
    rw [plainAfter_of_decrypted h hS hcheck hprefix hlt hfirst, plainAfter_of_decrypted h hS hcheck hc hlt' hboth]
    exact List.prefix_append out' out''

theorem streams_of_decrypted (hcheck : K.ppbloomCheck (S.take K.nonceLen) = false) (hinit : dCtx.init = 0)
    (hchunk : dCtx.chunk = [])
    : (cryptoInit (.stream K)).Streams dCtx S (K.ctxAfter dCtx) K.plainAfter where
  ctx_nil := by
    rw [ctxAfter, if_pos (.inr rfl), ← hchunk]
  plain_nil := plainAfter_of_le (Nat.zero_le _)
  mono _ _ hx := plainAfter_isPrefix h hS hout hcheck hx
  dCtx _ _ hx hd := (decrypt_ctxAfter h hS hout hcheck hinit hx hd).1
  res _ _ hx hd := (decrypt_ctxAfter h hS hout hcheck hinit hx hd).2

end

/-- `D` decrypts what `E` encrypts: `cipher_ctx_set_nonce` is called with `enc` for `E` and without for `D`. -/
structure Decrypts (D E : StreamCipher ε) : Prop where
  method_eq : D.method = E.method
  nonceLen_eq : D.nonceLen = E.nonceLen
  update : ∀ {nonce m c evp}, E.cipherCtxUpdate (E.cipherCtxSetNonce nonce) m = some (c, evp)
    → ∃ evp', D.cipherCtxUpdate (D.cipherCtxSetNonce nonce) c = some (m, evp')

variable {D E : StreamCipher ε} {eCtx eCtx' : CipherCtx ε} {p m ct : List Byte} {ps : List (List Byte)}

def opened (K : StreamCipher ε) (eCtx : CipherCtx ε) : CipherCtx ε :=
  { eCtx with evp := K.cipherCtxSetNonce eCtx.nonce, counter := 0, init := 1 }

theorem streamEncrypt_of_init_ne_zero (hinit : ctx.init ≠ 0) : streamEncrypt K ctx p = K.process ctx p :=
  if_neg hinit

theorem streamEncrypt_of_init_eq_zero (hinit : eCtx.init = 0)
    : streamEncrypt K eCtx p = (K.process (K.opened eCtx) p).map fun (c, ctx) => (eCtx.nonce ++ c, ctx) := by
  rw [streamEncrypt, if_pos hinit]
  dsimp only
  unfold process opened
  split <;> simp_all

theorem Lawful.streamEncryptAll_eq (h : K.Lawful ks limit) (eCtx : CipherCtx ε) (hle : m.length ≤ limit)
    : streamEncryptAll K eCtx.nonce m = (K.process (K.opened eCtx) m).map fun (c, _) => eCtx.nonce ++ c := by
  unfold streamEncryptAll process streamEncrypt.update
  have hcounter : (K.opened eCtx).counter = 0 := rfl
  split
  . rw [h.streamXor_eq (by rw [hcounter]; omega), h.xor _ _ _ (by omega)]
    rfl
  . unfold opened
    dsimp only
    split
    . rfl
    . rfl

theorem process_of_encodeAll (h : K.Lawful ks limit) (hinit : ctx.init ≠ 0)
    (hle : ctx.counter + (p :: ps).flatten.length ≤ limit)
    (hct : encodeAll (streamEncrypt K) ctx (p :: ps) = some (ct, eCtx'))
    : ∃ last, K.process ctx (p :: ps).flatten = some (ct, last) := by
  induction ps generalizing ctx p ct with
  | nil =>
    obtain ⟨y, ctx', z, hp, hrest, rfl⟩ := exists_of_encodeAll_cons hct
    have hz : [] = z := (Prod.mk.inj (Option.some.inj hrest)).1
    rw [streamEncrypt_of_init_ne_zero hinit] at hp
    rw [← hz, List.append_nil, List.flatten_singleton]
    exact ⟨ctx', hp⟩
  | cons q ps ih =>
    obtain ⟨y, ctx', z, hp, hrest, rfl⟩ := exists_of_encodeAll_cons hct
    rw [streamEncrypt_of_init_ne_zero hinit] at hp
    obtain ⟨-, hctx'⟩ := process_keeps hp
    have hcounter := process_counter_le hp
    rw [List.flatten_cons, List.length_append] at hle
    obtain ⟨last, hlast⟩ := ih (by rw [hctx']; exact hinit) (by omega) hrest
    rw [List.flatten_cons, h.process_append (by omega), hp]
    dsimp only
    rw [hlast]
    exact ⟨last, rfl⟩

theorem streamEncryptAll_of_encodeAll (h : K.Lawful ks limit) (hinit : eCtx.init = 0)
    (hle : (p :: ps).flatten.length ≤ limit)
    (hct : encodeAll (streamEncrypt K) eCtx (p :: ps) = some (ct, eCtx'))
    : streamEncryptAll K eCtx.nonce (p :: ps).flatten = some ct := by
  obtain ⟨y, ctx', z, hp, hrest, rfl⟩ := exists_of_encodeAll_cons hct
  rw [streamEncrypt_of_init_eq_zero hinit, Option.map_eq_some_iff] at hp
  obtain ⟨⟨c, ctx''⟩, hp, heq⟩ := hp
  obtain ⟨rfl, rfl⟩ := Prod.mk.inj heq
  have hrunning : (K.opened eCtx).init ≠ 0 := Nat.one_ne_zero
  have hall : encodeAll (streamEncrypt K) (K.opened eCtx) (p :: ps) = some (c ++ z, eCtx') := by
    rw [encodeAll, streamEncrypt_of_init_ne_zero hrunning, hp]
    dsimp only
    rw [hrest]
  obtain ⟨last, hlast⟩ := process_of_encodeAll h hrunning (by change 0 + _ ≤ limit; omega) hall
  rw [h.streamEncryptAll_eq eCtx hle, hlast, Option.map_some, List.append_assoc]

theorem Decrypts.decrypted (hDE : D.Decrypts E) (hD : D.Lawful ks limit) (hE : E.Lawful ks limit) (dCtx : CipherCtx ε)
    (hnonce : nonce.length = E.nonceLen) (hle : m.length ≤ limit) (hct : streamEncryptAll E nonce m = some ct)
    : ct.take D.nonceLen = nonce ∧ ct.length = nonce.length + m.length
      ∧ ∃ last, D.decrypted dCtx ct = some (m, last) := by
  have hsplit : ∀ {c : List Byte}, (nonce ++ c).take D.nonceLen = nonce ∧ (nonce ++ c).drop D.nonceLen = c := by
    intro c
    rw [hDE.nonceLen_eq, ← hnonce, List.take_left, List.drop_left]
    exact ⟨rfl, rfl⟩
  unfold streamEncryptAll at hct
  rw [StreamCipher.decrypted, process, streamEncrypt.update, hDE.method_eq]
  split at hct
  . next hmethod =>
    rw [hE.xor _ _ _ (by omega), Option.some.injEq] at hct
    have hcounter : (D.started dCtx ct).counter = 0 := rfl
    have hstarted : (D.started dCtx ct).nonce = ct.take D.nonceLen := rfl
    rw [if_pos hmethod, hD.streamXor_eq (by rw [hcounter, ← hct, hsplit.2, length_xorAt]; omega), hstarted,
      hcounter, ← hct, hsplit.1, hsplit.2, Nat.mul_zero, xorAt_xorAt]
    exact ⟨rfl, by rw [List.length_append, length_xorAt], _, rfl⟩
  . next hmethod =>
    split at hct
    . contradiction
    . next c evp heq =>
      obtain ⟨evp', hevp⟩ := hDE.update heq
      have hstarted : (D.started dCtx ct).evp = D.cipherCtxSetNonce (ct.take D.nonceLen) := rfl
      rw [Option.some.injEq] at hct
      rw [if_neg hmethod, hstarted, ← hct, hsplit.1, hsplit.2, hevp]
      exact ⟨rfl, by rw [List.length_append, E.length_update heq], _, rfl⟩

end StreamCipher

theorem StreamCipher.streams_of_encodeAll {D E : StreamCipher ε} {ks : List Byte → Nat → Byte} {limit : Nat}
    {eCtx eCtx' dCtx : CipherCtx ε} {ps : List (List Byte)} {ct : List Byte}
    (hE : E.Lawful ks limit) (hD : D.Lawful ks limit) (hDE : D.Decrypts E) (hps : ps ≠ [])
    (he_init : eCtx.init = 0) (hnonce : eCtx.nonce.length = E.nonceLen)
    (hle : E.nonceLen + ps.flatten.length ≤ limit) (hct : encodeAll (streamEncrypt E) eCtx ps = some (ct, eCtx'))
    (hd_init : dCtx.init = 0) (hchunk : dCtx.chunk = []) (hfresh : D.ppbloomCheck eCtx.nonce = false)
    : streamEncryptAll E eCtx.nonce ps.flatten = some ct
      ∧ (cryptoInit (.stream D)).Streams dCtx ct (D.ctxAfter dCtx) D.plainAfter
      ∧ D.plainAfter ct = ps.flatten := by
  obtain ⟨p, ps, rfl⟩ := List.exists_cons_of_ne_nil hps
  have hall := StreamCipher.streamEncryptAll_of_encodeAll hE he_init (by omega) hct
  obtain ⟨htake, hlength, last, hlast⟩ := hDE.decrypted hD hE dCtx hnonce (by omega) hall
  have hcheck : D.ppbloomCheck (ct.take D.nonceLen) = false := by rw [htake, hfresh]
  refine ⟨hall, StreamCipher.streams_of_decrypted hD (by omega) hlast hcheck hd_init hchunk, ?_⟩
  by_cases hnil : (p :: ps).flatten = []
  . rw [hnil, List.length_nil, Nat.add_zero] at hlength
    rw [hnil, StreamCipher.plainAfter_of_le (by rw [hlength, hnonce, hDE.nonceLen_eq])]
  . have hlt : D.nonceLen < ct.length := by
      have := List.length_pos_iff.mpr hnil
      rw [hlength, hnonce, hDE.nonceLen_eq]
      omega
    exact StreamCipher.plainAfter_of_decrypted hD (by omega) hcheck (List.prefix_refl ct) hlt hlast

/--
The bytes that a stream cipher makes of chunks are those that it makes of the whole text at once. They are decrypted as
the return codes of `decrypt` document it, however they are cut, and what comes out is what went in.
-/
theorem stream_streams {D E : StreamCipher ε} {ks : List Byte → Nat → Byte} {limit : Nat}
    {eCtx eCtx' dCtx : CipherCtx ε} {ps : List (List Byte)} {ct : List Byte}
    (hE : E.Lawful ks limit) (hD : D.Lawful ks limit) (hDE : D.Decrypts E) (hps : ps ≠ [])
    (he_init : eCtx.init = 0) (hnonce : eCtx.nonce.length = E.nonceLen)
    (hle : E.nonceLen + ps.flatten.length ≤ limit)
    (hct : encodeAll (cryptoInit (.stream E)).encrypt eCtx ps = some (ct, eCtx'))
    (hd_init : dCtx.init = 0) (hchunk : dCtx.chunk = []) (hfresh : D.ppbloomCheck eCtx.nonce = false)
    : streamEncryptAll E eCtx.nonce ps.flatten = some ct
      ∧ (cryptoInit (.stream D)).Streams dCtx ct (D.ctxAfter dCtx) D.plainAfter
      ∧ ∀ segs, (∀ seg ∈ segs, seg ≠ []) → segs.flatten = ct
        → (cryptoInit (.stream D)).received dCtx segs = ps.flatten := by
  obtain ⟨hall, hstreams, hplain⟩ :=
    StreamCipher.streams_of_encodeAll hE hD hDE hps he_init hnonce hle hct hd_init hchunk hfresh
  refine ⟨hall, hstreams, ?_⟩
  intro segs hsegs hS
  have hreceived := hstreams.received (c := []) hsegs (by rw [hS]; exact List.prefix_refl ct)
  rw [hstreams.plain_nil, hstreams.ctx_nil, List.nil_append, List.nil_append, hS] at hreceived
  rw [hreceived, hplain]

def StreamCipher.counting : StreamCipher Unit where
  method := SALSA20 + 1
  nonceLen := 8
  cipherCtxSetNonce _ := ()
  cipherCtxUpdate _ _ := none
  cryptoStreamXorIc _ ic m := xorAt UInt8.ofNat (SODIUM_BLOCK_SIZE * ic) m
  ppbloomCheck _ := false
  length_update h := by contradiction
  length_xor _ _ _ := length_xorAt

theorem stream_streams_two_chunks
    : let K := StreamCipher.counting
      let eCtx := CipherCtx.new (List.replicate 8 7)
      let ct := List.replicate 8 7 ++ [1, 3] ++ [1]
      streamEncryptAll K eCtx.nonce [1, 2, 3] = some ct
        ∧ (cryptoInit (.stream K)).Streams (CipherCtx.new []) ct (K.ctxAfter (CipherCtx.new [])) K.plainAfter
        ∧ ∀ segs, (∀ seg ∈ segs, seg ≠ []) → segs.flatten = ct
          → (cryptoInit (.stream K)).received (CipherCtx.new []) segs = [1, 2, 3] := by
  intro K eCtx ct
  have hct : encodeAll (cryptoInit (.stream K)).encrypt eCtx [[1, 2], [3]]
      = some (ct, { eCtx with init := 1, counter := 3 }) := by
    decide +kernel
  have hlawful : K.Lawful (fun _ => UInt8.ofNat) (2 ^ 38) := ⟨by decide, fun _ _ _ => rfl, fun _ _ _ _ => rfl⟩
  have hdecrypts : K.Decrypts K := ⟨rfl, rfl, fun h => by contradiction⟩
  exact stream_streams hlawful hlawful hdecrypts (List.cons_ne_nil _ _) rfl rfl (by decide) hct rfl rfl rfl

end Xsocks
