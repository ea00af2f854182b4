import Xsocks.Protocol.Lemmas.Aead
import Xsocks.Protocol.Lemmas.PpBloom

/-!
This module contains what the filter of a process is for: whatever order its connections and datagrams are
handled in, no salt and no IV is accepted a second time, nor a salt that the process has sent itself, until many
others have come. The IVs that a stream cipher sends are not kept, so that a process accepts its own.
-/

namespace Xsocks

variable {ε : Type} {B : BloomLib}

/-- What one call of `decrypt` does to the context of its connection. `check` is what the filter answers. -/
structure Checked (iv : CipherCtx ε → List Byte) (check : List Byte → Bool) (ctx : CipherCtx ε)
    (d : Decrypted (CipherCtx ε)) : Prop where
  init_le : d.dCtx.init ≤ 2
  keeps : ctx.init = 2 → d.dCtx.init = 2 ∧ iv d.dCtx = iv ctx
  fresh : ctx.init ≠ 2 → d.dCtx.init = 2 → check (iv d.dCtx) = false
  ok : ∀ plaintext, d.res = .CRYPTO_OK plaintext → d.dCtx.init = 2

namespace AeadCipher

variable {K : AeadCipher} {ctx : CipherCtx ε}

theorem aeadChunkDecrypt_keeps (ctx : CipherCtx ε)
    : (aeadChunkDecrypt K ctx).2.init = ctx.init ∧ (aeadChunkDecrypt K ctx).2.salt = ctx.salt := by
  unfold aeadChunkDecrypt
  split
  . exact ⟨rfl, rfl⟩
  . split
    . exact ⟨rfl, rfl⟩
    . dsimp only
      split
      . exact ⟨rfl, rfl⟩
      . split
        . exact ⟨rfl, rfl⟩
        . split
          . exact ⟨rfl, rfl⟩
          . exact ⟨rfl, rfl⟩

theorem loop_keeps (ctx : CipherCtx ε) (plaintext : List Byte) (rounds : Nat)
    : (aeadDecrypt.loop K ctx plaintext rounds).2.init = ctx.init
      ∧ (aeadDecrypt.loop K ctx plaintext rounds).2.salt = ctx.salt := by
  induction rounds generalizing ctx plaintext with
  | zero => exact ⟨rfl, rfl⟩
  | succ rounds ih =>
    have hkeeps := aeadChunkDecrypt_keeps (K := K) ctx
    rw [aeadDecrypt.loop]
    split
    . exact ⟨rfl, rfl⟩
    . split
      . next heq =>
        rw [heq] at hkeeps
        exact hkeeps
      . next heq =>
        rw [heq] at hkeeps
        split
        . exact hkeeps
        . exact hkeeps
      . next p ctx₁ heq =>
        rw [heq] at hkeeps
        obtain ⟨hinit, hsalt⟩ := ih ctx₁ (plaintext ++ p)
        exact ⟨hinit.trans hkeeps.1, hsalt.trans hkeeps.2⟩

theorem checked_chunks (ctx : CipherCtx ε) (hinit : ctx.init = 1 ∨ ctx.init = 2)
    : Checked CipherCtx.salt K.ppbloomCheck ctx (aeadDecrypt.chunks K ctx) := by
  obtain ⟨hinit', hsalt⟩ := loop_keeps (K := K) ctx [] ctx.chunk.length
  unfold aeadDecrypt.chunks
  generalize aeadDecrypt.loop K ctx [] ctx.chunk.length = result at hinit' hsalt
  obtain ⟨res, ctx'⟩ := result
  dsimp only at hinit' hsalt
  cases res with
  | CRYPTO_OK plaintext =>
    dsimp only
    split
    . next hone =>
      split
      . next hcheck =>
        constructor
        case init_le => dsimp only; omega
        case keeps => intro htwo; omega
        case fresh =>
          intro _ htwo
          dsimp only at htwo
          omega
        case ok => simp
      . next hcheck =>
        constructor
        case init_le => exact Nat.le_refl 2
        case keeps => exact fun _ => ⟨rfl, hsalt⟩
        case fresh => exact fun _ _ => Bool.eq_false_iff.mpr hcheck
        case ok => exact fun _ _ => rfl
    . next hne =>
      have htwo : ctx'.init = 2 := by omega
      constructor
      case init_le => exact Nat.le_of_eq htwo
      case keeps => exact fun _ => ⟨htwo, hsalt⟩
      case fresh => intro hne' _; omega
      case ok => exact fun _ _ => htwo
  | CRYPTO_NEED_MORE =>
    constructor
    case init_le => dsimp only; omega
    case keeps => exact fun htwo => ⟨hinit'.trans htwo, hsalt⟩
    case fresh =>
      intro hne htwo
      exact absurd (hinit'.symm.trans htwo) hne
    case ok => simp
  | CRYPTO_ERROR =>
    constructor
    case init_le => dsimp only; omega
    case keeps => exact fun htwo => ⟨hinit'.trans htwo, hsalt⟩
    case fresh =>
      intro hne htwo
      exact absurd (hinit'.symm.trans htwo) hne
    case ok => simp

theorem checked_decrypt (hinit : ctx.init ≤ 2) (ciphertext : List Byte)
    : Checked CipherCtx.salt K.ppbloomCheck ctx (aeadDecrypt K ctx ciphertext) := by
  unfold aeadDecrypt
  dsimp only
  split
  . next hzero =>
    have hnot : ∀ {P : Prop}, ctx.init = 2 → P := fun htwo => absurd (hzero.symm.trans htwo) (by decide)
    split
    . constructor
      case init_le => exact hinit
      case keeps => exact hnot
      case fresh => exact fun _ htwo => hnot htwo
      case ok => simp
    . split
      . constructor
        case init_le => exact hinit
        case keeps => exact hnot
        case fresh => exact fun _ htwo => hnot htwo
        case ok => simp
      . have hchunks := checked_chunks (K := K) { aeadCipherCtxSetKey K { ctx with
            chunk := ctx.chunk ++ ciphertext, salt := (ctx.chunk ++ ciphertext).take K.keyLen } with
          chunk := (ctx.chunk ++ ciphertext).drop K.keyLen, init := 1 } (.inl rfl)
        exact ⟨hchunks.init_le, hnot, fun _ => hchunks.fresh (show 1 ≠ 2 by decide), hchunks.ok⟩
  . next hne =>
    have hchunks := checked_chunks (K := K) { ctx with chunk := ctx.chunk ++ ciphertext } (by
      dsimp only
      omega)
    exact ⟨hchunks.init_le, hchunks.keeps, hchunks.fresh, hchunks.ok⟩

end AeadCipher

namespace StreamCipher

variable {K : StreamCipher ε} {ctx : CipherCtx ε}

theorem checked_finish (ctx : CipherCtx ε) (hmethod : RC4_MD5 ≤ K.method) (hinit : ctx.init = 1 ∨ ctx.init = 2)
    (plaintext : List Byte) (demand : Nat)
    : Checked CipherCtx.nonce K.ppbloomCheck ctx (streamDecrypt.finish K ctx plaintext demand) := by
  unfold streamDecrypt.finish
  split
  . next hone =>
    split
    . constructor
      case init_le => dsimp only; omega
      case keeps => intro htwo; omega
      case fresh => exact fun hne htwo => absurd htwo hne
      case ok => simp
    . next hcheck =>
      constructor
      case init_le => exact Nat.le_refl 2
      case keeps => exact fun _ => ⟨rfl, rfl⟩
      case fresh => exact fun _ _ => Bool.eq_false_iff.mpr hcheck
      case ok => exact fun _ _ => rfl
  . next hne =>
    have htwo : ctx.init = 2 := hinit.resolve_left fun hone => hne ⟨hone, hmethod⟩
    constructor
    case init_le => exact Nat.le_of_eq htwo
    case keeps => exact fun _ => ⟨htwo, rfl⟩
    case fresh => exact fun hne _ => absurd htwo hne
    case ok => exact fun _ _ => htwo

theorem checked_update (ctx : CipherCtx ε) (hmethod : RC4_MD5 ≤ K.method) (hinit : ctx.init = 1 ∨ ctx.init = 2)
    (ciphertext : List Byte)
    : Checked CipherCtx.nonce K.ppbloomCheck ctx (streamDecrypt.update K ctx ciphertext) := by
  -- The state of the key stream does not matter.
  have hfinish : ∀ (ctx' : CipherCtx ε) (plaintext : List Byte) (demand : Nat), ctx'.init = ctx.init
      → ctx'.nonce = ctx.nonce
      → Checked CipherCtx.nonce K.ppbloomCheck ctx (streamDecrypt.finish K ctx' plaintext demand) := by
    intro ctx' plaintext demand hinit' hnonce
    have hchecked := checked_finish ctx' hmethod (by omega) plaintext demand
    constructor
    case init_le => exact hchecked.init_le
    case keeps =>
      rw [← hinit', ← hnonce]
      exact hchecked.keeps
    case fresh =>
      rw [← hinit']
      exact hchecked.fresh
    case ok => exact hchecked.ok
  unfold streamDecrypt.update
  split
  . constructor
    case init_le => dsimp only; omega
    case keeps => exact fun htwo => ⟨htwo, rfl⟩
    case fresh => exact fun hne htwo => absurd htwo hne
    case ok => simp
  . split
    . exact hfinish _ _ _ rfl rfl
    . split
      . constructor
        case init_le => dsimp only; omega
        case keeps => exact fun htwo => ⟨htwo, rfl⟩
        case fresh => exact fun hne htwo => absurd htwo hne
        case ok => simp
      . exact hfinish _ _ _ rfl rfl

theorem checked_decrypt (hmethod : RC4_MD5 ≤ K.method) (hinit : ctx.init ≤ 2) (ciphertext : List Byte)
    : Checked CipherCtx.nonce K.ppbloomCheck ctx (streamDecrypt K ctx ciphertext) := by
  unfold streamDecrypt
  dsimp only
  split
  . next hzero =>
    have hnot : ∀ {P : Prop}, ctx.init = 2 → P := fun htwo => absurd (hzero.symm.trans htwo) (by decide)
    split
    . constructor
      case init_le => exact hinit
      case keeps => exact hnot
      case fresh => exact fun _ htwo => hnot htwo
      case ok => simp
    . split
      . constructor
        case init_le => exact Nat.le_succ 1
        case keeps => exact hnot
        case fresh =>
          intro _ htwo
          exact absurd htwo (show 1 ≠ 2 by decide)
        case ok => simp
      . have hupdate := checked_update (K := K) { ctx with
          chunk := ctx.chunk ++ ciphertext.take (min (K.nonceLen - ctx.chunk.length) ciphertext.length)
          nonce := ctx.chunk ++ ciphertext.take (min (K.nonceLen - ctx.chunk.length) ciphertext.length)
          evp := K.cipherCtxSetNonce
            (ctx.chunk ++ ciphertext.take (min (K.nonceLen - ctx.chunk.length) ciphertext.length))
          counter := 0, init := 1 } hmethod (.inl rfl)
          (ciphertext.drop (min (K.nonceLen - ctx.chunk.length) ciphertext.length))
        exact ⟨hupdate.init_le, hnot, fun _ => hupdate.fresh (show 1 ≠ 2 by decide), hupdate.ok⟩
  . exact checked_update ctx hmethod (by omega) ciphertext

end StreamCipher

namespace Cipher

def Checks : Cipher ε → Prop
  | .aead _ => True
  | .stream K => RC4_MD5 ≤ K.method

theorem checked_decrypt {K : Cipher ε} (hK : K.Checks) {ctx : CipherCtx ε} (hinit : ctx.init ≤ 2) (f : PpBloom B)
    (ciphertext : List Byte)
    : Checked K.iv (fun iv => f.ppbloomCheck iv = 1) ctx ((cryptoInit (K.checking f)).decrypt ctx ciphertext) := by
  cases K with
  | aead K =>
    exact AeadCipher.checked_decrypt (K := { K with ppbloomCheck := fun salt => f.ppbloomCheck salt = 1 }) hinit
      ciphertext
  | stream K =>
    exact StreamCipher.checked_decrypt (K := { K with ppbloomCheck := fun nonce => f.ppbloomCheck nonce = 1 }) hK
      hinit ciphertext

theorem checked_decryptAll {K : Cipher ε} {f : PpBloom B} {ciphertext plaintext : List Byte}
    (h : (cryptoInit (K.checking f)).decryptAll ciphertext = some plaintext)
    : f.ppbloomCheck (ciphertext.take K.ivLen) ≠ 1 := by
  cases K with
  | aead K =>
    simp only [checking, cryptoInit, aeadDecryptAll] at h
    split at h
    . contradiction
    . split at h
      . contradiction
      . next hcheck => exact fun heq => hcheck (decide_eq_true heq)
  | stream K =>
    simp only [checking, cryptoInit, streamDecryptAll] at h
    split at h
    . contradiction
    . split at h
      . contradiction
      . next hcheck => exact fun heq => hcheck (decide_eq_true heq)

end Cipher

def Unrepeated (window : Nat) (added : List Added) : Prop :=
  ∀ j conn iv, added[j]? = some (.accepted conn iv) → iv ∉ ((added.take j).drop (j - window)).map Added.iv

theorem Unrepeated.concat {window : Nat} {added : List Added} (h : Unrepeated window added) (a : Added)
    (ha : ∀ conn iv, a = .accepted conn iv → iv ∉ (added.drop (added.length - window)).map Added.iv)
    : Unrepeated window (added ++ [a]) := by
  intro j conn iv hj
  rcases Nat.lt_trichotomy j added.length with hlt | heq | hgt
  . rw [List.getElem?_append_left hlt] at hj
    rw [List.take_append_of_le_length (Nat.le_of_lt hlt)]
    exact h j conn iv hj
  . subst heq
    rw [List.getElem?_concat_length] at hj
    rw [List.take_left]
    exact ha conn iv (Option.some.inj hj)
  . rw [List.getElem?_eq_none (by rw [List.length_append, List.length_singleton]; omega)] at hj
    contradiction

def Added.isOf (conn : Nat) : Added → Bool
  | accepted (some conn') _ => conn = conn'
  | _ => false

namespace Ciphers

variable {K : Cipher ε} {s : Ciphers ε B} {n : Nat}

structure Starts (s : Ciphers ε B) (n : Nat) (e : B.Rate) : Prop where
  filter : PpBloom.ppbloomInit n e = some s.filter
  added : s.added = []
  given : s.given = []
  init : ∀ conn, (s.dCtx conn).init = 0

structure Guarded (K : Cipher ε) (n : Nat) (s : Ciphers ε B) : Prop where
  retains : ∃ fresh old new, s.filter.Retains fresh (s.added.map Added.iv) old new
  entries : s.filter.entries = n / 2
  unrepeated : Unrepeated (n / 2) s.added
  init_le : ∀ conn, (s.dCtx conn).init ≤ 2
  pending : ∀ conn, (s.dCtx conn).init ≠ 2 → s.added.filter (Added.isOf conn) = []
  once : ∀ conn, (s.dCtx conn).init = 2
    → s.added.filter (Added.isOf conn) = [.accepted (some conn) (K.iv (s.dCtx conn))]
  given : ∀ conn iv, (some conn, iv) ∈ s.given → .accepted (some conn) iv ∈ s.added
  datagrams : ∀ iv, s.given.count (none, iv) = s.added.count (.accepted none iv)

theorem guarded_starts {e : B.Rate} (h : s.Starts n e) (hn : 2 ≤ n) : Guarded K n s := by
  obtain ⟨fresh, -, hretains, hentries⟩ := PpBloom.retains_init h.filter hn
  constructor
  case retains =>
    rw [h.added]
    exact ⟨fresh, [], [], hretains⟩
  case entries => exact hentries
  case unrepeated =>
    intro j conn iv hj
    rw [h.added] at hj
    contradiction
  case init_le =>
    intro conn
    rw [h.init]
    exact Nat.zero_le 2
  case pending =>
    intro conn _
    rw [h.added]
    rfl
  case once =>
    intro conn htwo
    rw [h.init] at htwo
    contradiction
  case given =>
    intro conn iv hmem
    rw [h.given] at hmem
    contradiction
  case datagrams =>
    intro iv
    rw [h.added, h.given]
    rfl

theorem Guarded.unrepeated_add (h : Guarded K n s) (a : Added)
    (ha : ∀ conn iv, a = .accepted conn iv → s.filter.ppbloomCheck iv ≠ 1)
    : Unrepeated (n / 2) (s.added ++ [a]) := by
  apply h.unrepeated.concat
  intro conn iv heq hmem
  obtain ⟨fresh, old, new, hretains⟩ := h.retains
  apply ha conn iv heq
  apply hretains.check_recent
  rw [List.length_map, h.entries, ← List.map_drop]
  exact hmem

theorem Guarded.retains_add (h : Guarded K n s) (a : Added)
    : (∃ fresh old new, (s.filter.add a.iv).Retains fresh ((s.added ++ [a]).map Added.iv) old new)
      ∧ (s.filter.add a.iv).entries = n / 2 := by
  obtain ⟨fresh, old, new, hretains⟩ := h.retains
  obtain ⟨old', new', hretains', hentries⟩ := hretains.add a.iv
  rw [List.map_append]
  exact ⟨⟨fresh, old', new', hretains'⟩, hentries.trans h.entries⟩

theorem Guarded.sent (h : Guarded K n s) (iv : List Byte) : Guarded K n (s.add (.sent iv)) := by
  obtain ⟨hretains, hentries⟩ := h.retains_add (.sent iv)
  constructor
  case retains => exact hretains
  case entries => exact hentries
  case unrepeated => exact h.unrepeated_add _ fun _ _ heq => nomatch heq
  case init_le => exact h.init_le
  case pending =>
    intro conn hne
    rw [Ciphers.add, List.filter_append, h.pending conn hne]
    rfl
  case once =>
    intro conn htwo
    rw [Ciphers.add, List.filter_append, h.once conn htwo]
    rfl
  case given =>
    intro conn iv' hmem
    exact List.mem_append_left _ (h.given conn iv' hmem)
  case datagrams =>
    intro iv'
    rw [Ciphers.add, List.count_append]
    exact h.datagrams iv'

theorem Guarded.encrypt (h : Guarded K n s) (conn : Nat) (plaintext : List Byte)
    : Guarded K n (s.call K (.encrypt conn plaintext)) := by
  have heCtx : ∀ {s : Ciphers ε B}, Guarded K n s → ∀ eCtx, Guarded K n { s with eCtx := eCtx } := by
    intro s h eCtx
    exact ⟨h.retains, h.entries, h.unrepeated, h.init_le, h.pending, h.once, h.given, h.datagrams⟩
  unfold Ciphers.call
  dsimp only
  cases K with
  | aead K =>
    have hsent : Guarded (.aead K) n (if plaintext.length ≠ 0 ∧ (s.eCtx conn).init = 0
        then s.add (.sent (s.eCtx conn).salt) else s) := by
      split
      . exact h.sent _
      . exact h
    dsimp only
    split
    . exact hsent
    . exact heCtx hsent _
  | stream K =>
    dsimp only
    split
    . exact h
    . exact heCtx h _

theorem Guarded.moved (h : Guarded K n s) {conn : Nat} {dCtx : CipherCtx ε} (hle : dCtx.init ≤ 2)
    (hkeeps : (s.dCtx conn).init = 2 → dCtx.init = 2 ∧ K.iv dCtx = K.iv (s.dCtx conn))
    (hnot : ¬((s.dCtx conn).init ≠ 2 ∧ dCtx.init = 2))
    : Guarded K n { s with dCtx := Function.update s.dCtx conn dCtx } := by
  refine ⟨h.retains, h.entries, h.unrepeated, ?_, ?_, ?_, h.given, h.datagrams⟩
  . intro conn'
    dsimp only
    by_cases hconn : conn' = conn
    . rw [hconn, Function.update_self]
      exact hle
    . rw [Function.update_of_ne hconn]
      exact h.init_le conn'
  . intro conn'
    dsimp only
    by_cases hconn : conn' = conn
    . rw [hconn, Function.update_self]
      intro hne
      exact h.pending conn fun htwo => hne (hkeeps htwo).1
    . rw [Function.update_of_ne hconn]
      exact h.pending conn'
  . intro conn'
    dsimp only
    by_cases hconn : conn' = conn
    . rw [hconn, Function.update_self]
      intro htwo'
      have htwo : (s.dCtx conn).init = 2 := Decidable.of_not_not fun hne => hnot ⟨hne, htwo'⟩
      rw [(hkeeps htwo).2]
      exact h.once conn htwo
    . rw [Function.update_of_ne hconn]
      exact h.once conn'

theorem Guarded.accepted (h : Guarded K n s) {conn : Nat} {dCtx : CipherCtx ε} (hne : (s.dCtx conn).init ≠ 2)
    (htwo : dCtx.init = 2) (hfresh : s.filter.ppbloomCheck (K.iv dCtx) ≠ 1)
    : Guarded K n (Ciphers.add { s with dCtx := Function.update s.dCtx conn dCtx }
        (.accepted (some conn) (K.iv dCtx))) := by
  obtain ⟨hretains, hentries⟩ := h.retains_add (.accepted (some conn) (K.iv dCtx))
  constructor
  case retains => exact hretains
  case entries => exact hentries
  case unrepeated =>
    apply h.unrepeated_add
    intro conn' iv heq
    rw [← (Added.accepted.inj heq).2]
    exact hfresh
  case init_le =>
    intro conn'
    rw [Ciphers.add]
    dsimp only
    by_cases hconn : conn' = conn
    . rw [hconn, Function.update_self]
      exact Nat.le_of_eq htwo
    . rw [Function.update_of_ne hconn]
      exact h.init_le conn'
  case pending =>
    intro conn'
    rw [Ciphers.add]
    dsimp only
    by_cases hconn : conn' = conn
    . rw [hconn, Function.update_self]
      exact fun hne' => absurd htwo hne'
    . rw [Function.update_of_ne hconn, List.filter_append]
      intro hne'
      rw [h.pending conn' hne']
      simp [Added.isOf, hconn]
  case once =>
    intro conn'
    rw [Ciphers.add]
    dsimp only
    by_cases hconn : conn' = conn
    . rw [hconn, Function.update_self, List.filter_append, h.pending conn hne]
      simp [Added.isOf]
    . rw [Function.update_of_ne hconn, List.filter_append]
      intro htwo'
      rw [h.once conn' htwo']
      simp [Added.isOf, hconn]
  case given =>
    intro conn' iv' hmem
    exact List.mem_append_left _ (h.given conn' iv' hmem)
  case datagrams =>
    intro iv'
    rw [Ciphers.add, List.count_append]
    exact h.datagrams iv'

theorem Guarded.give (h : Guarded K n s) {conn : Nat} (htwo : (s.dCtx conn).init = 2)
    : Guarded K n { s with given := s.given ++ [(some conn, K.iv (s.dCtx conn))] } := by
  refine ⟨h.retains, h.entries, h.unrepeated, h.init_le, h.pending, h.once, ?_, ?_⟩
  . intro conn' iv hmem
    rcases List.mem_append.mp hmem with hmem | hmem
    . exact h.given conn' iv hmem
    . simp only [List.mem_singleton, Prod.mk.injEq, Option.some.injEq] at hmem
      rw [hmem.1, hmem.2]
      apply List.mem_of_mem_filter (p := Added.isOf conn)
      rw [h.once conn htwo]
      exact List.mem_singleton_self _
  . intro iv
    dsimp only
    rw [List.count_append, ← h.datagrams iv]
    simp

theorem Guarded.decrypt (h : Guarded K n s) (hK : K.Checks) (conn : Nat) (ciphertext : List Byte)
    : Guarded K n (s.call K (.decrypt conn ciphertext)) := by
  have hchecked := Cipher.checked_decrypt hK (h.init_le conn) s.filter ciphertext
  unfold Ciphers.call
  dsimp only
  generalize (cryptoInit (K.checking s.filter)).decrypt (s.dCtx conn) ciphertext = d at hchecked
  -- The step without the plaintext.
  have hstep : ∃ s' : Ciphers ε B, Guarded K n s' ∧ s'.dCtx conn = d.dCtx
      ∧ s' = if (s.dCtx conn).init ≠ 2 ∧ d.dCtx.init = 2 then
          Ciphers.add { s with dCtx := Function.update s.dCtx conn d.dCtx } (.accepted (some conn) (K.iv d.dCtx))
        else { s with dCtx := Function.update s.dCtx conn d.dCtx } := by
    by_cases hnew : (s.dCtx conn).init ≠ 2 ∧ d.dCtx.init = 2
    . have hfresh : s.filter.ppbloomCheck (K.iv d.dCtx) ≠ 1 :=
        of_decide_eq_false (hchecked.fresh hnew.1 hnew.2)
      refine ⟨_, h.accepted hnew.1 hnew.2 hfresh, ?_, (if_pos hnew).symm⟩
      exact Function.update_self conn d.dCtx s.dCtx
    . refine ⟨_, h.moved hchecked.init_le hchecked.keeps hnew, ?_, (if_neg hnew).symm⟩
      exact Function.update_self conn d.dCtx s.dCtx
  obtain ⟨s', h', hctx, heq⟩ := hstep
  rw [← heq]
  split
  . next plaintext hres =>
    have htwo := hchecked.ok plaintext hres
    rw [← hctx] at htwo ⊢
    exact h'.give htwo
  . exact h'

theorem Guarded.decryptAll (h : Guarded K n s) (ciphertext : List Byte)
    : Guarded K n (s.call K (.decryptAll ciphertext)) := by
  unfold Ciphers.call
  dsimp only
  split
  . exact h
  . next plaintext heq =>
    obtain ⟨hretains, hentries⟩ := h.retains_add (.accepted none (ciphertext.take K.ivLen))
    constructor
    case retains => exact hretains
    case entries => exact hentries
    case unrepeated =>
      apply h.unrepeated_add
      intro conn iv heq'
      rw [← (Added.accepted.inj heq').2]
      exact Cipher.checked_decryptAll heq
    case init_le => exact h.init_le
    case pending =>
      intro conn hne
      rw [Ciphers.add, List.filter_append, h.pending conn hne]
      rfl
    case once =>
      intro conn htwo
      rw [Ciphers.add, List.filter_append, h.once conn htwo]
      rfl
    case given =>
      intro conn iv hmem
      rcases List.mem_append.mp hmem with hmem | hmem
      . exact List.mem_append_left _ (h.given conn iv hmem)
      . simp at hmem
    case datagrams =>
      intro iv
      dsimp only [Ciphers.add]
      rw [List.count_append, List.count_append, h.datagrams iv]
      simp [List.count_singleton]

theorem Guarded.call (h : Guarded K n s) (hK : K.Checks) (c : CipherCall) : Guarded K n (s.call K c) := by
  cases c with
  | encrypt conn plaintext => exact h.encrypt conn plaintext
  | decrypt conn ciphertext => exact h.decrypt hK conn ciphertext
  | encryptAll iv plaintext =>
    cases K with
    | aead K => exact h.sent iv
    | stream K => exact h
  | decryptAll ciphertext => exact h.decryptAll ciphertext

theorem guarded_run (h : Guarded K n s) (hK : K.Checks) (calls : List CipherCall)
    : Guarded K n (calls.foldl (Ciphers.call K) s) := by
  induction calls generalizing s with
  | nil => exact h
  | cons c calls ih => exact ih (h.call hK c)

end Ciphers

/--
In every run of a process, nothing is given back that was not accepted, a connection is accepted at most once and a
datagram once each time, and no salt or IV is accepted that was among the `n / 2` that were added to the filter
before it: those that were accepted and, with an AEAD cipher, those that were sent.
-/
theorem replay_rejected {K : Cipher ε} (hK : K.Checks) {s : Ciphers ε B} {n : Nat} {e : B.Rate} (hs : s.Starts n e)
    (hn : 2 ≤ n) (calls : List CipherCall)
    : let s' := calls.foldl (Ciphers.call K) s
      Unrepeated (n / 2) s'.added
        ∧ (∀ conn, (s'.added.filter (Added.isOf conn)).length ≤ 1)
        ∧ (∀ conn iv, (some conn, iv) ∈ s'.given → .accepted (some conn) iv ∈ s'.added)
        ∧ ∀ iv, s'.given.count (none, iv) = s'.added.count (.accepted none iv) := by
  intro s'
  have h : Ciphers.Guarded K n s' := Ciphers.guarded_run (Ciphers.guarded_starts hs hn) hK calls
  refine ⟨h.unrepeated, ?_, h.given, h.datagrams⟩
  intro conn
  by_cases htwo : (s'.dCtx conn).init = 2
  . rw [h.once conn htwo]
    exact Nat.le_refl 1
  . rw [h.pending conn htwo]
    exact Nat.zero_le 1

theorem replay_rejected_datagram
    : let datagram := List.replicate 32 7 ++ 1 :: List.replicate 16 0
      ∃ s : Ciphers Unit BloomLib.list, s.Starts 4 ()
        ∧ let s' := [.decryptAll datagram, .decryptAll datagram].foldl (Ciphers.call (.aead .zero)) s
          Unrepeated 2 s'.added
            ∧ (∀ conn, (s'.added.filter (Added.isOf conn)).length ≤ 1)
            ∧ (∀ conn iv, (some conn, iv) ∈ s'.given → .accepted (some conn) iv ∈ s'.added)
            ∧ ∀ iv, s'.given.count (none, iv) = s'.added.count (.accepted none iv) := by
  intro datagram
  have hstarts : Ciphers.Starts (ε := Unit) (B := BloomLib.list)
      ⟨(PpBloom.ppbloomInit 4 ()).get rfl, fun _ => .new [], fun _ => .new [], [], []⟩ 4 () :=
    ⟨rfl, rfl, rfl, fun _ => rfl⟩
  have hchecks : (Cipher.aead .zero : Cipher Unit).Checks := trivial
  exact ⟨_, hstarts, replay_rejected (n := 4) hchecks hstarts (by decide) _⟩

end Xsocks
