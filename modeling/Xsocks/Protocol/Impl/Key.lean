import Xsocks.Core.Basic
import Xsocks.Protocol.Impl.Cipher

/-!
This module contains the ways to a key of `crypto.c` and `base64.c` in `deps/shadowsocks-libev`: from its text, from a
password, and from another key and a salt.
-/

namespace Xsocks

def UINT_MAX : Nat := 2 ^ 32 - 1

/-- The output size needed to encode `x` bytes, with the final NUL. -/
def BASE64_SIZE (x : Nat) : Nat :=
  (x + 2) / 3 * 4 + 1

-- "ABCDEFGHIJKLMNOPQRSTUVWXYZabcdefghijklmnopqrstuvwxyz0123456789-_"
def b64 : List Byte :=
  (List.range' 65 26 ++ List.range' 97 26 ++ List.range' 48 10 ++ [45, 95]).map UInt8.ofNat

def map2 : List Nat := [
  0xff, 0xff, 0x3e, 0xff, 0xff, 0x34, 0x35, 0x36,
  0x37, 0x38, 0x39, 0x3a, 0x3b, 0x3c, 0x3d, 0xff,
  0xff, 0xff, 0xff, 0xff, 0xff, 0xff, 0x00, 0x01,
  0x02, 0x03, 0x04, 0x05, 0x06, 0x07, 0x08, 0x09,
  0x0a, 0x0b, 0x0c, 0x0d, 0x0e, 0x0f, 0x10, 0x11,
  0x12, 0x13, 0x14, 0x15, 0x16, 0x17, 0x18, 0x19,
  0xff, 0xff, 0xff, 0xff, 0x3f, 0xff, 0x1a, 0x1b,
  0x1c, 0x1d, 0x1e, 0x1f, 0x20, 0x21, 0x22, 0x23,
  0x24, 0x25, 0x26, 0x27, 0x28, 0x29, 0x2a, 0x2b,
  0x2c, 0x2d, 0x2e, 0x2f, 0x30, 0x31, 0x32, 0x33]

/-- `map2[in[i] - 43]`. The index is unsigned, so it is too large for a smaller character. -/
def map2At (ch : Byte) : Option Nat :=
  if ch < 43 then none
  else
    match map2[ch.toNat - 43]? with
    | none => none
    | some d => if d = 0xff then none else some d

/-- `none` is the result -1. -/
def base64Decode (input : List Byte) (outSize : Nat) : Option (List Byte) :=
  loop 0 0 [] input
where
  loop (i v : Nat) (dst : List Byte) : List Byte → Option (List Byte)
    | [] => some dst
    | ch :: rest =>
      -- '='
      if ch = 61 then some dst
      else
        match map2At ch with
        | none => none
        | some d =>
          -- `v` is an `int`, of which only the low bits are ever read
          let v := (v * 2 ^ 6 + d) % 2 ^ 32
          if i % 4 ≠ 0 ∧ dst.length < outSize then
            loop (i + 1) v (dst ++ [UInt8.ofNat (v / 2 ^ (6 - 2 * (i % 4)))]) rest
          else loop (i + 1) v dst rest

/-- `none` is the result `NULL`. -/
def base64Encode (outSize : Nat) (input : List Byte) : Option (List Byte) :=
  if UINT_MAX / 4 ≤ input.length ∨ outSize < BASE64_SIZE input.length then none
  else
    let dst := loop 0 0 input
    some (dst ++ List.replicate ((4 - dst.length % 4) % 4) 61)
where
  -- `i_shift` is at most 14 in the first round
  emit (iBits bytesRemaining : Nat) (iShift : Int) : Nat → List Byte × Int
    | 0 => ([], iShift)
    | rounds + 1 =>
      let ch := b64.getD (iBits * 2 ^ 6 % 2 ^ 32 / 2 ^ iShift.toNat % 64) 0
      let iShift := iShift - 6
      if iShift > 6 ∨ bytesRemaining = 0 ∧ iShift > 0 then
        let (dst, iShift) := emit iBits bytesRemaining iShift rounds
        (ch :: dst, iShift)
      else ([ch], iShift)
  loop (iBits : Nat) (iShift : Int) : List Byte → List Byte
    | [] => []
    | b :: rest =>
      let iBits := (iBits * 2 ^ 8 + b.toNat) % 2 ^ 32
      let (dst, iShift) := emit iBits rest.length (iShift + 8) 3
      dst ++ loop iBits iShift rest

/-- `none` stands for the end of the program. -/
def cryptoParseKey (base64 : List Byte) (keyLen : Nat) : Option (List Byte) :=
  match base64Decode base64 (BASE64_SIZE base64.length) with
  | none => none
  | some out => if out.length > 0 ∧ out.length ≥ keyLen then some (out.take keyLen) else none

structure MdInfo where
  size : Nat
  md (data : List Byte) : List Byte
  mdHmac (key data : List Byte) : List Byte
  size_pos : 0 < size
  length_md : ∀ data, (md data).length = size
  length_hmac : ∀ key data, (mdHmac key data).length = size

def cryptoDeriveKey (md : MdInfo) (pass : List Byte) (keyLen : Nat) : List Byte :=
  loop [] 0 [] keyLen
where
  -- every round adds to the key
  loop (mdBuf : List Byte) (addmd : Nat) (key : List Byte) : Nat → List Byte
    | 0 => key
    | rounds + 1 =>
      if key.length < keyLen then
        let mdBuf := md.md ((if addmd = 0 then [] else mdBuf) ++ pass)
        loop mdBuf (addmd + 1) (key ++ mdBuf.take (keyLen - key.length)) rounds
      else key

/-- `none` is the result `CRYPTO_ERROR`. -/
def cryptoHkdfExpand (md : MdInfo) (prk info : List Byte) (okmLen : Nat) : Option (List Byte) :=
  if prk.length < md.size then none
  else
    let N := okmLen / md.size + if okmLen % md.size ≠ 0 then 1 else 0
    if N > 255 then none else some (loop N 1 [] [] N)
where
  -- the rounds from `i` to `N`
  loop (N i : Nat) (T okm : List Byte) : Nat → List Byte
    | 0 => okm
    | rounds + 1 =>
      let T := md.mdHmac prk (T ++ info ++ [UInt8.ofNat i])
      loop N (i + 1) T (okm ++ T.take (if i ≠ N then md.size else okmLen - okm.length)) rounds

/-- The salt is never `NULL`. -/
def cryptoHkdf (md : MdInfo) (salt ikm info : List Byte) (okmLen : Nat) : Option (List Byte) :=
  cryptoHkdfExpand md (md.mdHmac salt ikm) info okmLen

-- "ss-subkey"
def SUBKEY_INFO : List Byte :=
  [115, 115, 45, 115, 117, 98, 107, 101, 121]

/-- The cipher with the master key `key`. `aead_cipher_ctx_set_key` ends the program if there is no subkey. -/
def AeadCipher.withKey (K : AeadCipher) (md : MdInfo) (key : List Byte) : AeadCipher :=
  { K with hkdf := fun salt => (cryptoHkdf md salt key SUBKEY_INFO K.keyLen).getD [] }

end Xsocks
