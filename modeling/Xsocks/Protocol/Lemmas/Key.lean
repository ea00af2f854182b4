import Xsocks.Lib.Feedback
import Xsocks.Protocol.Impl.Key
import Xsocks.Protocol.Lemmas.Cipher

/-!
This module contains what the two loops that make keys give back: as much as is asked for of an output that does not
depend on how much that is.
-/

namespace Xsocks

open Feedback

variable {md : MdInfo} {pass prk info salt ikm : List Byte} {keyLen okmLen n : Nat}

def deriveBlock (md : MdInfo) (pass : List Byte) (_ : Nat) (T : List Byte) : List Byte :=
  md.md (T ++ pass)

def hkdfBlock (md : MdInfo) (prk info : List Byte) (n : Nat) (T : List Byte) : List Byte :=
  md.mdHmac prk (T ++ info ++ [UInt8.ofNat n])

theorem length_deriveBlock (n : Nat) (T : List Byte) : (deriveBlock md pass n T).length = md.size :=
  md.length_md _

theorem length_hkdfBlock (n : Nat) (T : List Byte) : (hkdfBlock md prk info n T).length = md.size :=
  md.length_hmac _ _

theorem derive_loop_eq (n rounds : Nat)
    : cryptoDeriveKey.loop md pass keyLen (block (deriveBlock md pass) n) n
        ((output (deriveBlock md pass) n).take keyLen) rounds
      = (output (deriveBlock md pass) (n + rounds)).take keyLen := by
  induction rounds generalizing n with
  | zero => rfl
  | succ rounds ih =>
    rw [cryptoDeriveKey.loop, List.length_take, length_output length_deriveBlock]
    split
    . next hlt =>
      have hle : n * md.size ≤ keyLen := by omega
      have hblock : md.md ((if n = 0 then [] else block (deriveBlock md pass) n) ++ pass)
          = block (deriveBlock md pass) (n + 1) := by
        split
        . next hzero =>
          rw [hzero]
          rfl
        . rfl
      have hkey := take_output_succ (f := deriveBlock md pass) length_deriveBlock hle
      rw [length_output length_deriveBlock] at hkey
      have hround := ih (n + 1)
      rw [hkey, Nat.add_assoc, Nat.add_comm 1] at hround
      dsimp only
      rw [hblock, Nat.min_eq_right hle, List.take_of_length_le (by rw [length_output length_deriveBlock]; exact hle)]
      exact hround
    . next hge =>
      have hle : keyLen ≤ n * md.size := by omega
      apply take_output length_deriveBlock hle
      exact Nat.le_trans hle (Nat.mul_le_mul_right _ (Nat.le_add_right _ _))

theorem cryptoDeriveKey_eq (md : MdInfo) (pass : List Byte) (keyLen : Nat)
    : cryptoDeriveKey md pass keyLen = (output (deriveBlock md pass) keyLen).take keyLen := by
  have hloop : cryptoDeriveKey md pass keyLen = (output (deriveBlock md pass) (0 + keyLen)).take keyLen := by
    rw [← derive_loop_eq, output, List.take_nil]
    rfl
  rw [hloop, Nat.zero_add]

theorem expand_loop_eq {N : Nat} (n rounds : Nat) (hn : n + (rounds + 1) = N) (hlow : (N - 1) * md.size ≤ okmLen)
    : cryptoHkdfExpand.loop md prk info okmLen N (n + 1) (block (hkdfBlock md prk info) n)
        (output (hkdfBlock md prk info) n) (rounds + 1)
      = (output (hkdfBlock md prk info) N).take okmLen := by
  induction rounds generalizing n with
  | zero =>
    have hN : N - 1 = n := by omega
    rw [hN] at hlow
    rw [cryptoHkdfExpand.loop, if_neg (by simp [← hn]), ← hn, take_output_succ length_hkdfBlock hlow]
    rfl
  | succ rounds ih =>
    have hround := ih (n + 1) (by omega)
    rw [output] at hround
    rw [cryptoHkdfExpand.loop, if_pos (by omega), List.take_of_length_le (Nat.le_of_eq (md.length_hmac _ _))]
    exact hround

theorem hkdf_rounds {size : Nat} (hsize : 0 < size) (len : Nat)
    : let N := len / size + if len % size ≠ 0 then 1 else 0
      (N ≤ 255 ↔ len ≤ 255 * size) ∧ len ≤ N * size ∧ (N - 1) * size ≤ len := by
  have hdiv : len / size * size + len % size = len := Nat.div_add_mod' len size
  have hmod := Nat.mod_lt len hsize
  generalize len / size = q at hdiv
  generalize len % size = r at hdiv hmod
  dsimp only
  have hpred : (q - 1) * size ≤ q * size := Nat.mul_le_mul_right size (Nat.sub_le q 1)
  have hsucc : (q + 1) * size = q * size + size := Nat.succ_mul q size
  by_cases hr : r = 0
  . rw [if_neg (by omega), Nat.add_zero, ← hdiv, hr, Nat.add_zero]
    exact ⟨(Nat.mul_le_mul_right_iff hsize).symm, Nat.le_refl _, hpred⟩
  . rw [if_pos hr, Nat.add_sub_cancel]
    refine ⟨?_, by omega, by omega⟩
    constructor
    . intro hle
      have := Nat.mul_le_mul_right size hle
      omega
    . intro hle
      by_contra hlt
      have := Nat.mul_le_mul_right size (show 255 ≤ q by omega)
      omega

theorem cryptoHkdfExpand_eq (md : MdInfo) (prk info : List Byte) (okmLen : Nat)
    : cryptoHkdfExpand md prk info okmLen
      = if md.size ≤ prk.length ∧ okmLen ≤ 255 * md.size then
          some ((output (hkdfBlock md prk info) okmLen).take okmLen)
        else none := by
  obtain ⟨hlimit, hhigh, hlow⟩ := hkdf_rounds md.size_pos okmLen
  unfold cryptoHkdfExpand
  dsimp only
  generalize hN : okmLen / md.size + (if okmLen % md.size ≠ 0 then 1 else 0) = N at hlimit hhigh hlow
  by_cases hprk : prk.length < md.size
  . rw [if_pos hprk, if_neg (by omega)]
  . rw [if_neg hprk]
    by_cases hmany : N > 255
    . rw [if_pos hmany, if_neg fun hand => absurd (hlimit.mpr hand.2) (by omega)]
    . rw [if_neg hmany, if_pos ⟨by omega, hlimit.mp (by omega)⟩]
      have henough : okmLen ≤ okmLen * md.size := Nat.le_mul_of_pos_right okmLen md.size_pos
      rw [take_output length_hkdfBlock henough hhigh]
      cases N with
      | zero =>
        rw [output, List.take_nil]
        rfl
      | succ N => exact congrArg some (expand_loop_eq 0 N (Nat.zero_add _) hlow)

/--
A password and a salt always give a key and a subkey of the length of the cipher. They are the beginnings of outputs
that do not depend on how much of them is needed, so that a shorter key is the beginning of a longer one.
-/
theorem derived_keys (md5 sha1 : MdInfo) (pass salt : List Byte) {K : AeadCipher} (hK : K.keyLen ≤ 255 * sha1.size)
    : let key := cryptoDeriveKey md5 pass K.keyLen
      let skey := (K.withKey sha1 key).hkdf salt
      (key = (output (deriveBlock md5 pass) K.keyLen).take K.keyLen ∧ key.length = K.keyLen)
        ∧ (∀ keyLen, keyLen ≤ K.keyLen → cryptoDeriveKey md5 pass keyLen = key.take keyLen)
        ∧ cryptoHkdf sha1 salt key SUBKEY_INFO K.keyLen = some skey
        ∧ skey = (output (hkdfBlock sha1 (sha1.mdHmac salt key) SUBKEY_INFO) K.keyLen).take K.keyLen
        ∧ skey.length = K.keyLen := by
  intro key skey
  have henough : ∀ {md : MdInfo} (len : Nat), len ≤ len * md.size :=
    fun len => Nat.le_mul_of_pos_right len (MdInfo.size_pos _)
  have hkey : key = (output (deriveBlock md5 pass) K.keyLen).take K.keyLen := cryptoDeriveKey_eq md5 pass K.keyLen
  have hskey : cryptoHkdf sha1 salt key SUBKEY_INFO K.keyLen
      = some ((output (hkdfBlock sha1 (sha1.mdHmac salt key) SUBKEY_INFO) K.keyLen).take K.keyLen) := by
    rw [cryptoHkdf, cryptoHkdfExpand_eq, if_pos ⟨Nat.le_of_eq (sha1.length_hmac _ _).symm, hK⟩]
  have hget : skey = (output (hkdfBlock sha1 (sha1.mdHmac salt key) SUBKEY_INFO) K.keyLen).take K.keyLen :=
    congrArg (·.getD []) hskey
  refine ⟨⟨hkey, ?_⟩, ?_, by rw [hskey, hget], hget, ?_⟩
  . rw [hkey]
    exact length_take_output length_deriveBlock (henough _)
  . intro keyLen hle
    rw [cryptoDeriveKey_eq, hkey, List.take_take, Nat.min_eq_left hle]
    exact take_output length_deriveBlock (henough _) (Nat.le_trans hle (henough _))
  . rw [hget]
    exact length_take_output length_hkdfBlock (henough _)

def lastBytes (size : Nat) (data : List Byte) : List Byte :=
  (data.reverse ++ List.replicate size 0).take size

theorem length_lastBytes (size : Nat) (data : List Byte) : (lastBytes size data).length = size := by
  rw [lastBytes, List.length_take, List.length_append, List.length_replicate]
  exact Nat.min_eq_left (Nat.le_add_left _ _)

def MdInfo.last (size : Nat) (size_pos : 0 < size) : MdInfo where
  size := size
  md := lastBytes size
  mdHmac key data := lastBytes size (key ++ data)
  size_pos := size_pos
  length_md := length_lastBytes size
  length_hmac key data := length_lastBytes size (key ++ data)

theorem derived_keys_zero
    : let md5 := MdInfo.last 16 (by decide)
      let sha1 := MdInfo.last 20 (by decide)
      let K := AeadCipher.zero
      let pass : List Byte := [102, 111, 111]
      let salt : List Byte := List.replicate 32 7
      let key := cryptoDeriveKey md5 pass 32
      let skey := (K.withKey sha1 key).hkdf salt
      (key = (output (deriveBlock md5 pass) 32).take 32 ∧ key.length = 32)
        ∧ (∀ keyLen, keyLen ≤ 32 → cryptoDeriveKey md5 pass keyLen = key.take keyLen)
        ∧ cryptoHkdf sha1 salt key SUBKEY_INFO 32 = some skey
        ∧ skey = (output (hkdfBlock sha1 (sha1.mdHmac salt key) SUBKEY_INFO) 32).take 32
        ∧ skey.length = 32 := by
  intro md5 sha1 K pass salt
  exact derived_keys (K := K) md5 sha1 pass salt (by decide)

end Xsocks
