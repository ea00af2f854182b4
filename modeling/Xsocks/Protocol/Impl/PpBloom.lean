import Xsocks.Protocol.Impl.Cipher

/-!
This module contains `ppbloom.c` of `deps/shadowsocks-libev`, over the Bloom filters of libbloom, and the calls of the
ciphers of a process, which all look for repeated salts and IVs in the same filter.
-/

namespace Xsocks

/-- The Bloom filters of libbloom. An element that has been added is always found. -/
structure BloomLib where
  Bloom : Type
  Rate : Type
  bloomInit (entries : Nat) (error : Rate) : Option Bloom
  bloomCheck (bloom : Bloom) (buffer : List Byte) : Bool
  bloomAdd (bloom : Bloom) (buffer : List Byte) : Bloom
  check_add_self : ∀ bloom buffer, bloomCheck (bloomAdd bloom buffer) buffer = true
  check_add : ∀ bloom buffer buffer', bloomCheck bloom buffer = true
    → bloomCheck (bloomAdd bloom buffer') buffer = true

inductive PingPong where
  | PING
  | PONG
  deriving DecidableEq

def PingPong.other : PingPong → PingPong
  | PING => PONG
  | PONG => PING

/-- The static variables of `ppbloom.c`. A filter that has not been initialised is `none`. -/
structure PpBloom (B : BloomLib) where
  ppbloom : PingPong → Option B.Bloom
  bloomCount : PingPong → Nat
  current : PingPong
  entries : Nat
  error : B.Rate

namespace PpBloom

variable {B : BloomLib}

/-- `none` is the error of `bloom_init`. -/
def ppbloomInit (n : Nat) (e : B.Rate) : Option (PpBloom B) :=
  let entries := n / 2
  match B.bloomInit entries e with
  | none => none
  | some ping =>
    match B.bloomInit entries e with
    | none => none
    | some pong =>
      some { ppbloom := fun | .PING => some ping | .PONG => some pong, bloomCount := fun _ => 0
             current := .PING, entries := entries, error := e }

/-- `bloom_check`, which does not look into a filter that has not been initialised. -/
def bloomCheck (bloom : Option B.Bloom) (buffer : List Byte) : Int :=
  match bloom with
  | none => -1
  | some bloom => if B.bloomCheck bloom buffer then 1 else 0

def ppbloomCheck (f : PpBloom B) (buffer : List Byte) : Int :=
  let ret := bloomCheck (f.ppbloom .PING) buffer
  if ret ≠ 0 then ret
  else
    let ret := bloomCheck (f.ppbloom .PONG) buffer
    if ret ≠ 0 then ret else 0

def ppbloomAdd (f : PpBloom B) (buffer : List Byte) : Int × PpBloom B :=
  match f.ppbloom f.current with
  | none => (-1, f)
  | some bloom =>
    let f := { f with
      ppbloom := Function.update f.ppbloom f.current (some (B.bloomAdd bloom buffer))
      bloomCount := Function.update f.bloomCount f.current (f.bloomCount f.current + 1) }
    if f.bloomCount f.current ≥ f.entries then
      let current := f.current.other
      (0, { f with
        bloomCount := Function.update f.bloomCount f.current 0
        current := current
        -- the filter is freed, and the result of `bloom_init` is not looked at
        ppbloom := Function.update f.ppbloom current (B.bloomInit f.entries f.error) })
    else (0, f)

/-- The filter after `ppbloom_add`, whose result no caller looks at. -/
def add (f : PpBloom B) (buffer : List Byte) : PpBloom B :=
  (f.ppbloomAdd buffer).2

end PpBloom

namespace Cipher

variable {ε : Type} {B : BloomLib}

def checking (f : PpBloom B) : Cipher ε → Cipher ε
  | .aead K => .aead { K with ppbloomCheck := fun salt => f.ppbloomCheck salt = 1 }
  | .stream K => .stream { K with ppbloomCheck := fun nonce => f.ppbloomCheck nonce = 1 }

def iv : Cipher ε → CipherCtx ε → List Byte
  | .aead _, ctx => ctx.salt
  | .stream _, ctx => ctx.nonce

def ivLen : Cipher ε → Nat
  | .aead K => K.keyLen
  | .stream K => K.nonceLen

end Cipher

/-- The salts and IVs that a process has added to its filter: of what it has sent, or of what it has accepted. -/
inductive Added where
  | sent (iv : List Byte)
  /-- `conn` is `none` for a datagram. -/
  | accepted (conn : Option Nat) (iv : List Byte)
  deriving DecidableEq

def Added.iv : Added → List Byte
  | sent iv => iv
  | accepted _ iv => iv

structure Ciphers (ε : Type) (B : BloomLib) where
  filter : PpBloom B
  eCtx : Nat → CipherCtx ε
  dCtx : Nat → CipherCtx ε
  /-- What has been added to the filter so far. -/
  added : List Added
  /-- The connections and datagrams whose plaintext has been given back so far, with their salts or IVs. -/
  given : List (Option Nat × List Byte)

inductive CipherCall where
  | encrypt (conn : Nat) (plaintext : List Byte)
  | decrypt (conn : Nat) (ciphertext : List Byte)
  | encryptAll (iv plaintext : List Byte)
  | decryptAll (ciphertext : List Byte)

namespace Ciphers

variable {ε : Type} {B : BloomLib}

def add (s : Ciphers ε B) (a : Added) : Ciphers ε B :=
  { s with filter := s.filter.add a.iv, added := s.added ++ [a] }

def call (K : Cipher ε) (s : Ciphers ε B) : CipherCall → Ciphers ε B
  | .encrypt conn plaintext =>
    let eCtx := s.eCtx conn
    -- the stream ciphers of a build without `MODULE_REMOTE` do not add the IVs that they send
    let s := match K with
      | .aead _ => if plaintext.length ≠ 0 ∧ eCtx.init = 0 then s.add (.sent eCtx.salt) else s
      | .stream _ => s
    match (cryptoInit (K.checking s.filter)).encrypt eCtx plaintext with
    | none => s
    | some (_, eCtx) => { s with eCtx := Function.update s.eCtx conn eCtx }
  | .decrypt conn ciphertext =>
    let d := (cryptoInit (K.checking s.filter)).decrypt (s.dCtx conn) ciphertext
    let init := (s.dCtx conn).init
    let s := { s with dCtx := Function.update s.dCtx conn d.dCtx }
    -- where `init` is set to 2, the salt or the IV is added
    let s := if init ≠ 2 ∧ d.dCtx.init = 2 then s.add (.accepted (some conn) (K.iv d.dCtx)) else s
    match d.res with
    | .CRYPTO_OK _ => { s with given := s.given ++ [(some conn, K.iv d.dCtx)] }
    | _ => s
  | .encryptAll iv _ =>
    match K with
    | .aead _ => s.add (.sent iv)
    | .stream _ => s
  | .decryptAll ciphertext =>
    let iv := ciphertext.take K.ivLen
    match (cryptoInit (K.checking s.filter)).decryptAll ciphertext with
    | none => s
    | some _ =>
      let s := s.add (.accepted none iv)
      { s with given := s.given ++ [(none, iv)] }

end Ciphers

end Xsocks
