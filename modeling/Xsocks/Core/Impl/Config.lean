import Xsocks.Core.Impl.Utils
import Xsocks.Lib.Decimal

/-!
This module contains `core/config.c`: the configuration with its defaults, the values that `configLoad` takes
from a JSON file, the options of the command line, and the split of the tunnel address.
-/

namespace Xsocks

def CString.ofAscii (s : String) : CString :=
  .ofBuf (s.toList.map Char.toUInt8)

def MODE_TCP_ONLY : Int32 := 1

def MODE_UDP_ONLY : Int32 := 2

def MODE_TCP_AND_UDP : Int32 := 3

def loglevelEnum : List (CString × Int32) :=
  [(.ofAscii "debug", 0), (.ofAscii "info", 1), (.ofAscii "notice", 2), (.ofAscii "warning", 3),
    (.ofAscii "error", 4)]

def LOGLEVEL_DEBUG : Int32 := 0

def LOGLEVEL_NOTICE : Int32 := 2

/-- `xsocksConfig`, where `none` is `NULL`. -/
structure Config where
  pidfile : Option CString
  daemonize : Int32
  remoteAddr : Option CString
  remotePort : Int32
  localAddr : Option CString
  localPort : Int32
  password : Option CString
  tunnelAddress : Option CString
  tunnelAddr : Option (Bytes HOSTNAME_MAX_LEN)
  tunnelPort : Int32
  key : Option CString
  method : Option CString
  timeout : Int32
  fastOpen : Int32
  reusePort : Int32
  mode : Int32
  mtu : Int32
  loglevel : Int32
  logfile : Option CString
  logfileLine : Int32
  useSyslog : Int32
  ipv6First : Int32
  ipv6Only : Int32
  noDelay : Int32
  acl : Option CString

def configNew : Config where
  pidfile := none
  daemonize := 0
  remoteAddr := some (.ofAscii "127.0.0.1")
  remotePort := 8388
  localAddr := none
  localPort := 1080
  password := some (.ofAscii "foobar")
  tunnelAddress := some (.ofAscii "8.8.8.8:53")
  tunnelAddr := none
  tunnelPort := 0
  key := none
  method := some (.ofAscii "aes-256-cfb")
  timeout := 60
  fastOpen := 0
  reusePort := 0
  mode := MODE_TCP_ONLY
  mtu := 0
  loglevel := LOGLEVEL_NOTICE
  logfile := none
  logfileLine := 0
  useSyslog := 1
  ipv6First := 0
  ipv6Only := 1
  noDelay := 0
  acl := none

/-- A `json_value`. The contents of objects, arrays and doubles are not looked at. -/
inductive JsonValue where
  | none
  | object
  | array
  | integer (n : Int64)
  | double
  | string (ptr : CString)
  | boolean (b : Bool)
  | null

inductive ConfigExit where
  | fatal (text : String)
  | version
  /-- `strcasecmp` with `NULL` -/
  | nullDeref
  | overflow
  deriving DecidableEq

structure LoadState where
  config : Config
  itoa : ItoaBuf

abbrev Load := EStateM ConfigExit LoadState

inductive ConfigFile where
  /-- `fopen` fails, the text is no JSON, or the value is no object. -/
  | invalid
  | unreadable
  | object (values : List (String × JsonValue))

structure ConfigEnv where
  /-- `fopen(file, "a")` with the text of `strerror` if it fails. -/
  append : CString → Option String
  file : CString → ConfigFile

/-! # Values -/

def isspace (c : Byte) : Bool :=
  c == 32 || (9 ≤ c && c ≤ 13)

/-- `(int)strtol(nptr, NULL, 10)`, where `strtol` stays between `LONG_MIN` and `LONG_MAX`. -/
def atoi (nptr : List Byte) : Int32 :=
  match nptr.dropWhile isspace with
  | 45 :: bs => long (-digits bs)
  | 43 :: bs => long (digits bs)
  | bs => long (digits bs)
where
  digits (bs : List Byte) : Int :=
    Decimal.val 0 (bs.takeWhile fun b => Decimal.IsDigit b)
  long (i : Int) : Int32 :=
    (Int64.ofInt (max (-2 ^ 63) (min i (2 ^ 63 - 1)))).toInt32

def JsonValue.toInteger (value : JsonValue) : Load Int32 :=
  match value with
  | .string ptr => return atoi ptr.bytes
  | .integer n => return n.toInt32
  | .boolean b => return if b then 1 else 0
  | .null => return 0
  | _ => throw (.fatal "Invalid config format.")

def JsonValue.toString (value : JsonValue) : Load (Option CString) := do
  match value with
  | .string ptr => return some ptr
  | .integer n =>
    let st ← get
    -- The parameter of `xs_itoa` is an `int`.
    match xsItoa st.itoa n.toInt32 with
    | .none => throw .overflow
    | .some (p, buf) =>
      modify fun st => { st with itoa := buf }
      return some (buf.str p)
  | .null => return .none
  | _ => throw (.fatal "Invalid config format.")

def tolower (c : Byte) : Byte :=
  if 65 ≤ c ∧ c ≤ 90 then c + 32 else c

def strcaseeq (s t : CString) : Bool :=
  s.bytes.map tolower == t.bytes.map tolower

/-- `none` is `INT_MIN`. -/
def configEnumGetValue (ce : List (CString × Int32)) (name : CString) : Option Int32 :=
  (ce.find? fun e => strcaseeq e.1 name).map Prod.snd

def errLoglevel : String :=
  "Invalid log level. Must be one of debug, info, notice, warning, error"

def testLogfile (env : ConfigEnv) (file : Option CString) : Option String :=
  match file with
  | none => none
  | some file =>
    if file.bytes = [] then none
    else (env.append file).map fun strerror => "Can't open the log file: " ++ strerror

/-! # The configuration file -/

def assignConfig (f : Config → Config) : Load Unit :=
  modify fun st => { st with config := f st.config }

def assignString (value : JsonValue) (f : Config → Option CString → Config) : Load Unit := do
  let s ← JsonValue.toString value
  assignConfig fun c => f c s

def assignInteger (value : JsonValue) (f : Config → Int32 → Config) : Load Unit := do
  let i ← JsonValue.toInteger value
  assignConfig fun c => f c i

def assignBoolean (name : String) (value : JsonValue) (f : Config → Int32 → Config) : Load Unit :=
  match value with
  | .boolean _ => assignInteger value f
  | _ => throw (.fatal ("invalid config file: option '" ++ name ++ "' must be a boolean"))

def configDirective (env : ConfigEnv) (name : String) (value : JsonValue) : Load Unit :=
  match name with
  | "server" => assignString value fun c s => { c with remoteAddr := s }
  | "server_port" => assignInteger value fun c i => { c with remotePort := i }
  | "port_password" => return
  | "local_address" => assignString value fun c s => { c with localAddr := s }
  | "local_port" => assignInteger value fun c i => { c with localPort := i }
  | "password" => assignString value fun c s => { c with password := s }
  | "key" => assignString value fun c s => { c with key := s }
  | "method" => assignString value fun c s => { c with method := s }
  | "timeout" => assignInteger value fun c i => { c with timeout := i }
  | "user" => return
  | "fast_open" => assignBoolean name value fun c i => { c with fastOpen := i }
  | "reuse_port" => assignBoolean name value fun c i => { c with reusePort := i }
  | "logfile" => logfile
  | "loglevel" => loglevel
  | "logfile_line" => assignBoolean name value fun c i => { c with logfileLine := i }
  | "pidfile" => assignString value fun c s => { c with pidfile := s }
  | "daemonize" => assignBoolean name value fun c i => { c with daemonize := i }
  | "tunnel_address" => assignString value fun c s => { c with tunnelAddress := s }
  | "mode" => mode
  | "mtu" =>
    match value with
    | .integer _ => assignInteger value fun c i => { c with mtu := i }
    | _ => throw (.fatal "invalid config file: option 'mtu' must be an integer")
  | "ipv6_first" => assignBoolean name value fun c i => { c with ipv6First := i }
  | "ipv6_only" => assignBoolean name value fun c i => { c with ipv6Only := i }
  | "use_syslog" => assignBoolean name value fun c i => { c with useSyslog := i }
  | "no_delay" => assignBoolean name value fun c i => { c with noDelay := i }
  | "acl" => assignString value fun c s => { c with acl := s }
  | _ => throw (.fatal ("Bad directive: " ++ name))
where
  logfile : Load Unit := do
    assignString value fun c s => { c with logfile := s }
    let st ← get
    match testLogfile env st.config.logfile with
    | none => return
    | some err => throw (.fatal err)
  loglevel : Load Unit := do
    match ← JsonValue.toString value with
    | none => throw .nullDeref
    | some loglevel =>
      match configEnumGetValue loglevelEnum loglevel with
      | none => throw (.fatal errLoglevel)
      | some i => assignConfig fun c => { c with loglevel := i }
  mode : Load Unit := do
    match ← JsonValue.toString value with
    | none => assignConfig fun c => { c with mode := MODE_TCP_ONLY }
    | some modeStr =>
      if modeStr = .ofAscii "tcp_only" then assignConfig fun c => { c with mode := MODE_TCP_ONLY }
      else if modeStr = .ofAscii "tcp_and_udp" then assignConfig fun c => { c with mode := MODE_TCP_AND_UDP }
      else if modeStr = .ofAscii "udp_only" then assignConfig fun c => { c with mode := MODE_UDP_ONLY }
      else return

def configDirectives (env : ConfigEnv) : List (String × JsonValue) → Load Unit
  | [] => return
  | (name, value) :: values => do
    configDirective env name value
    configDirectives env values

def configLoad (env : ConfigEnv) (filename : CString) : Load Unit :=
  match env.file filename with
  | .invalid => throw (.fatal "invalid config file")
  | .unreadable => throw (.fatal "Failed to read the config file.")
  | .object values => configDirectives env values

/-! # The tunnel address -/

def strrchr (c : Byte) : List Byte → Option Nat
  | [] => none
  | b :: bs =>
    match strrchr c bs with
    | some i => some (i + 1)
    | none => if b = c then some 0 else none

/-- Stores `xs` at the start of an array, `none` if there is not enough room. -/
def Bytes.store {n : Nat} (buf : Bytes n) (xs : List Byte) : Option (Bytes n) :=
  if h : xs.length ≤ n then
    some ⟨xs ++ buf.val.drop xs.length, by
      rw [List.length_append, List.length_drop, buf.property]
      omega⟩
  else none

/--
`netHostPortParse` of `core/net.c`, with the array `host` and the variable `port`. `none` stands for a store
behind the end of the array.
-/
def netHostPortParse (addr : CString) (host : Bytes HOSTNAME_MAX_LEN) (port : Int32)
    : Option (Int × Bytes HOSTNAME_MAX_LEN × Int32) :=
  -- 58 is the colon.
  match strrchr 58 addr.bytes with
  | none => some (ERR, host, port)
  | some offset =>
    (host.store (addr.bytes.take offset ++ [0])).map fun host =>
      (OK, host, atoi (addr.bytes.drop (offset + 1)))

def hostZero : Bytes HOSTNAME_MAX_LEN :=
  ⟨List.replicate HOSTNAME_MAX_LEN 0, by simp⟩

def configTunnel : Load Unit := do
  let st ← get
  match st.config.tunnelAddress with
  | none => return
  | some tunnelAddress =>
    -- The return value of `netHostPortParse` is not looked at.
    match netHostPortParse tunnelAddress hostZero st.config.tunnelPort with
    | none => throw .overflow
    | some (_, host, port) =>
      assignConfig fun c => { c with tunnelAddr := some host, tunnelPort := port, tunnelAddress := none }

/-! # The command line -/

inductive Opt where
  | fastOpen
  | mtu (optarg : CString)
  | noDelay
  | key (optarg : CString)
  | reusePort
  | acl (optarg : CString)
  | loglevel (optarg : CString)
  | logfile (optarg : CString)
  | s (optarg : CString)
  | p (optarg : CString)
  | b (optarg : CString)
  | l (optarg : CString)
  | L (optarg : CString)
  | k (optarg : CString)
  | f (optarg : CString)
  | t (optarg : CString)
  | m (optarg : CString)
  | c (optarg : CString)
  | u
  | U
  | v
  | V
  | h
  | ipv6
  | unrecognized
  deriving DecidableEq

structure Args where
  confPath : Option CString := none
  key : Option CString := none
  logfile : Option CString := none
  remoteAddr : Option CString := none
  localAddr : Option CString := none
  tunnelAddress : Option CString := none
  password : Option CString := none
  pidfile : Option CString := none
  method : Option CString := none
  acl : Option CString := none
  fastOpen : Int32 := -1
  mtu : Int32 := -1
  noDelay : Int32 := -1
  reusePort : Int32 := -1
  loglevel : Int32 := -1
  remotePort : Int32 := -1
  localPort : Int32 := -1
  daemonize : Int32 := -1
  timeout : Int32 := -1
  mode : Int32 := -1
  ipv6First : Int32 := -1
  help : Bool := false
  err : Option String := none

def configOption (env : ConfigEnv) (args : Args) : Opt → Except ConfigExit Args
  | .fastOpen => .ok { args with fastOpen := 1 }
  | .mtu optarg => .ok { args with mtu := atoi optarg.bytes }
  | .noDelay => .ok { args with noDelay := 1 }
  | .key optarg => .ok { args with key := some optarg }
  | .reusePort => .ok { args with reusePort := 1 }
  | .acl optarg => .ok { args with acl := some optarg }
  | .loglevel optarg =>
    match configEnumGetValue loglevelEnum optarg with
    | some loglevel => .ok { args with loglevel := loglevel }
    | none => .ok { args with loglevel := Int32.minValue, err := some errLoglevel }
  | .logfile optarg =>
    .ok { args with
      logfile := some optarg
      err := (testLogfile env (some optarg)).or args.err }
  | .s optarg => .ok { args with remoteAddr := some optarg }
  | .p optarg => .ok { args with remotePort := atoi optarg.bytes }
  | .b optarg => .ok { args with localAddr := some optarg }
  | .l optarg => .ok { args with localPort := atoi optarg.bytes }
  | .L optarg => .ok { args with tunnelAddress := some optarg }
  | .k optarg => .ok { args with password := some optarg }
  | .f optarg => .ok { args with daemonize := 1, pidfile := some optarg }
  | .t optarg => .ok { args with timeout := atoi optarg.bytes }
  | .m optarg => .ok { args with method := some optarg }
  | .c optarg => .ok { args with confPath := some optarg }
  | .u => .ok { args with mode := MODE_TCP_AND_UDP }
  | .U => .ok { args with mode := MODE_UDP_ONLY }
  | .v => .ok { args with loglevel := LOGLEVEL_DEBUG }
  | .V => .error .version
  | .h => .ok { args with help := true }
  | .ipv6 => .ok { args with ipv6First := 1 }
  | .unrecognized => .ok { args with err := some "Unrecognized option" }

def configOptions (env : ConfigEnv) (args : Args) : List Opt → Except ConfigExit Args
  | [] => .ok args
  | opt :: opts => do
    let args ← configOption env args opt
    configOptions env args opts

def configStringDup (d s : Option CString) : Option CString :=
  s.or d

def configIntDup (d s : Int32) : Int32 :=
  if s > -1 then s else d

def Args.dup (args : Args) (config : Config) : Config :=
  { config with
    key := configStringDup config.key args.key
    logfile := configStringDup config.logfile args.logfile
    remoteAddr := configStringDup config.remoteAddr args.remoteAddr
    localAddr := configStringDup config.localAddr args.localAddr
    tunnelAddress := configStringDup config.tunnelAddress args.tunnelAddress
    password := configStringDup config.password args.password
    pidfile := configStringDup config.pidfile args.pidfile
    method := configStringDup config.method args.method
    acl := configStringDup config.acl args.acl
    loglevel := configIntDup config.loglevel args.loglevel
    remotePort := configIntDup config.remotePort args.remotePort
    localPort := configIntDup config.localPort args.localPort
    daemonize := configIntDup config.daemonize args.daemonize
    timeout := configIntDup config.timeout args.timeout
    mode := configIntDup config.mode args.mode
    reusePort := configIntDup config.reusePort args.reusePort
    ipv6First := configIntDup config.ipv6First args.ipv6First
    noDelay := configIntDup config.noDelay args.noDelay
    mtu := configIntDup config.mtu args.mtu
    fastOpen := configIntDup config.fastOpen args.fastOpen }

def configLoadPath (env : ConfigEnv) (confPath : Option CString) : Load Unit :=
  match confPath with
  | none => return
  | some confPath => configLoad env confPath

def configParse (env : ConfigEnv) (opts : List Opt) : Load Int := do
  match configOptions env {} opts with
  | .error e => throw e
  | .ok args =>
    configLoadPath env args.confPath
    assignConfig args.dup
    configTunnel
    match args.err with
    | some err => throw (.fatal err)
    | none => return if args.help then ERR else OK

end Xsocks
