import Xsocks.Core.Impl.Config
import Xsocks.Udp.Impl.Basic

/-!
This module contains the start-up of xs-tunnel: `moduleInit` and `tunnelInit`, from the command line to the
program that serves.
-/

namespace Xsocks.Udp

structure Host (κ : Type) where
  config : ConfigEnv
  inet : Inet
  pidfile : CString → Option String
  cryptoInit (password : CString) (key method : Option CString) : Option (Crypto κ)
  initAcl : CString → Bool
  udpServerNew (localAddr : Option CString) (localPort : Int32) : Bool

inductive TunnelExit where
  | config (e : ConfigExit)
  /-- `moduleUsage` and `exit(EXIT_OK)` -/
  | usage
  /-- `exit(EXIT_ERR)`, with the text that is logged if there is one. -/
  | error (text : Option String)
  deriving DecidableEq

def createPidFile {κ : Type} (T : Host κ) (pidfile : Option CString) : Option String :=
  match pidfile with
  | none => none
  | some pidfile =>
    if pidfile.bytes = [] then none
    else (T.pidfile pidfile).map fun strerror => "Invalid pidfile: " ++ strerror

def tunnelEnv {κ : Type} (T : Host κ) (config : Config) (crypto : Crypto κ) (tunnelAddr : HostName) : Env κ where
  app := .xsTunnel
  crypto := crypto
  inet := T.inet
  timeout := config.timeout.toInt
  ipv6First := config.ipv6First ≠ 0
  -- `NULL` and negative ports are left to `getaddrinfo`, which may return anything.
  remoteAddr := config.remoteAddr.getD (.ofBuf [])
  remotePort := config.remotePort.toInt.toNat
  tunnelAddr := tunnelAddr
  -- `htons` takes the lower 16 bits.
  tunnelPort := (config.tunnelPort.toInt % 65536).toNat

def tunnelInit {κ : Type} (T : Host κ) (config : Config) (crypto : Crypto κ) : Except TunnelExit (Env κ) :=
  match config.tunnelAddr with
  | none => .error (.error "Error tunnel address!")
  | some tunnelAddr =>
    -- `s.us` stays `NULL` without UDP.
    if config.mode &&& MODE_UDP_ONLY = 0 ∨ T.udpServerNew config.localAddr config.localPort = false then
      .error (.error none)
    else if h : (CString.ofBuf tunnelAddr.val).bytes.length < HOSTNAME_MAX_LEN then
      .ok (tunnelEnv T config crypto ⟨_, h⟩)
    else .error (.config .overflow)

def moduleInit {κ : Type} (T : Host κ) (opts : List Opt) : Except TunnelExit (Env κ) :=
  match configParse T.config opts ⟨configNew, .zero⟩ with
  | .error e _ => .error (.config e)
  | .ok rc st =>
    let config := st.config
    if rc = ERR then .error .usage
    else
      match config.password with
      | none => .error (.error "Invalid password")
      | some password =>
        match createPidFile T config.pidfile with
        | some text => .error (.error text)
        | none =>
          match T.cryptoInit password config.key config.method with
          | none => .error (.error "Failed to initialize ciphers")
          | some crypto =>
            if config.acl.all T.initAcl = false then .error (.error "Failed to initialize acl")
            else tunnelInit T config crypto

end Xsocks.Udp
