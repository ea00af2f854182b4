import Xsocks.Protocol.Lemmas.Socks5

/-!
This module contains the round trips of the SOCKS5 address codec: from a host to its encoding and back,
and from the bytes of a client to the encoding that the relay keeps of them.
-/

namespace Xsocks

variable {I : Inet}

def NonNumeric (b : Byte) : Prop :=
  ¬(48 ≤ b ∧ b ≤ 57) ∧ b ≠ 46

instance (b : Byte) : Decidable (NonNumeric b) :=
  inferInstanceAs (Decidable (_ ∧ _))

theorem socks5HostParse_eq_domain_iff (host : CString)
    : socks5HostParse host = .domain ↔ 58 ∉ host.bytes ∧ ∃ b ∈ host.bytes, NonNumeric b := by
  unfold socks5HostParse isIPv6Addr
  split
  . next hcolon =>
    have hcolon : 58 ∈ host.bytes := by simpa using hcolon
    simp [hcolon]
  . next hcolon =>
    have hcolon : 58 ∉ host.bytes := by simpa using hcolon
    split
    . next hall =>
      simp only [reduceCtorEq, false_iff, not_and, not_exists]
      intro _ b hb hnon
      rw [List.all_eq_true] at hall
      have := hall b hb
      simp [hnon.1, hnon.2] at this
    . next hall =>
      simp only [hcolon, not_false_eq_true, true_and, true_iff]
      rw [List.all_eq_true] at hall
      simpa [NonNumeric] using hall

/-- The hosts that have an encoding of their own, with their type and the length of the encoding. -/
inductive Encodable (I : Inet) : CString → Socks5Atyp → Nat → Prop where
  | ipv4 (a : Bytes Family.inet.size) : Encodable I (I.ntop .inet a) .ipv4 7
  | ipv6 (a : Bytes Family.inet6.size) : Encodable I (I.ntop .inet6 a) .ipv6 19
  | domain (host : CString) (pos : 1 ≤ host.bytes.length) (le : host.bytes.length ≤ 255)
      (colon : 58 ∉ host.bytes) (exists_byte : ∃ b ∈ host.bytes, NonNumeric b)
      : Encodable I host .domain (host.bytes.length + 4)

namespace Encodable

variable {host : CString} {atyp : Socks5Atyp} {n : Nat}

theorem socks5HostParse (h : Encodable I host atyp n) (hI : I.Lawful)
    : Xsocks.socks5HostParse host = atyp := by
  cases h with
  | ipv4 a => exact socks5HostParse_ntop hI .inet a
  | ipv6 a => exact socks5HostParse_ntop hI .inet6 a
  | domain host pos le colon exists_byte =>
    exact (socks5HostParse_eq_domain_iff host).mpr ⟨colon, exists_byte⟩

theorem encodedLen (h : Encodable I host atyp n) (hI : I.Lawful) : Xsocks.encodedLen host = n := by
  rw [Xsocks.encodedLen, h.socks5HostParse hI]
  cases h with
  | ipv4 a => rfl
  | ipv6 a => rfl
  | domain host pos le colon exists_byte => exact Nat.add_comm _ _

theorem length_lt (h : Encodable I host atyp n) (hI : I.Lawful) : host.bytes.length < 256 := by
  cases h with
  | ipv4 a =>
    have := hI.length_ntop .inet a
    omega
  | ipv6 a =>
    have := hI.length_ntop .inet6 a
    omega
  | domain host pos le colon exists_byte => omega

theorem reachedHost (h : Encodable I host atyp n) (hI : I.Lawful) (uninit : Uninit)
    : Xsocks.reachedHost I uninit host = host := by
  rw [Xsocks.reachedHost, h.socks5HostParse hI]
  cases h with
  | ipv4 a =>
    dsimp only
    rw [resolved_ntop hI]
  | ipv6 a =>
    dsimp only
    rw [resolved_ntop hI]
  | domain host pos le colon exists_byte => rfl

theorem le_max (h : Encodable I host atyp n) : n ≤ SOCKS5_ADDR_MAX_LEN := by
  unfold SOCKS5_ADDR_MAX_LEN
  cases h with
  | ipv4 a => decide
  | ipv6 a => decide
  | domain host pos le colon exists_byte => omega

end Encodable

/-- The encoding of a host is found again whatever follows it. -/
theorem socks5Addr_roundtrip (hI : I.Lawful) (uninit : Uninit) (host : CString) (atyp : Socks5Atyp)
    (n : Nat) (h : Encodable I host atyp n) (port : Nat) (hport : port < 65536) (t : List Byte)
    : ∃ e, socks5AddrInit I uninit host port = some e ∧ e.length = n ∧ n ≤ SOCKS5_ADDR_MAX_LEN
        ∧ socks5AddrParse I (.ofList 0 (e ++ t)) (e ++ t).length HOSTNAME_MAX_LEN
            = some ⟨e.length, atyp, host.bytes, port⟩ := by
  refine ⟨_, socks5AddrInit_eq uninit host port, ?_, h.le_max, ?_⟩
  . rw [length_encodeAddr, h.encodedLen hI]
  . have hparse := parseAddr_encodeAddr hI uninit _ (h.length_lt hI) hport
    rw [h.socks5HostParse hI, h.reachedHost hI] at hparse
    exact parseAddr_of_isPrefix_right hparse (List.prefix_append _ t)

theorem encodable_localhost : Encodable .text localhost .ipv4 7 := by
  have hntop : localhost = Inet.text.ntop .inet ⟨[127, 0, 0, 1], rfl⟩ := by decide +kernel
  rw [hntop]
  exact .ipv4 _

theorem socks5Addr_roundtrip_localhost
    : ∃ e, socks5AddrInit .text .zero localhost 80 = some e ∧ e.length = 7 ∧ 7 ≤ SOCKS5_ADDR_MAX_LEN
        ∧ socks5AddrParse .text (.ofList 0 (e ++ [1, 2, 3])) (e ++ [1, 2, 3]).length HOSTNAME_MAX_LEN
            = some ⟨e.length, .ipv4, localhost.bytes, 80⟩ :=
  socks5Addr_roundtrip Inet.text_lawful .zero localhost .ipv4 7 encodable_localhost 80 (by decide) _

theorem host_of_parseAddr {P : List Byte} {addr : Socks5Addr} (h : parseAddr I P = some addr) (f : Family)
    (hatyp : addr.atyp = f.atyp)
    : addr.host = (I.ntop f (bytesAt (.ofList 0 P) 1 f.size)).bytes := by
  have hip : ∀ f', socks5AddrParse.ip I (.ofList 0 P) P.length HOSTNAME_MAX_LEN f'.atyp f' = some addr
      → addr.atyp = f'.atyp ∧ addr.host = (I.ntop f' (bytesAt (.ofList 0 P) 1 f'.size)).bytes := by
    intro f' h
    unfold socks5AddrParse.ip Inet.inetNtop at h
    split at h
    . contradiction
    . split at h
      . contradiction
      . next host heq =>
        split at heq
        . simp only [Option.some.injEq] at h heq
          rw [← h, ← heq]
          exact ⟨rfl, rfl⟩
        . contradiction
  unfold parseAddr socks5AddrParse at h
  split at h
  . obtain ⟨hat, hhost⟩ := hip .inet h
    cases f with
    | inet => exact hhost
    | inet6 => simp [hat, Family.atyp] at hatyp
  . obtain ⟨hat, hhost⟩ := hip .inet6 h
    cases f with
    | inet => simp [hat, Family.atyp] at hatyp
    | inet6 => exact hhost
  . dsimp only at h
    split at h
    . contradiction
    . simp only [Option.some.injEq] at h
      rw [← h] at hatyp
      cases f <;> simp [Family.atyp] at hatyp
  . contradiction

/-- The address `addr'` of the encoding `e` is the destination `addr` that was found in `P`. -/
structure SameDestination (P e : List Byte) (addr addr' : Socks5Addr) : Prop where
  port : addr'.port = addr.port
  ip : ∀ f : Family, addr.atyp = f.atyp
    → addr'.atyp = addr.atyp ∧ (e.drop 1).take f.size = (P.drop 1).take f.size
  domain : addr.atyp = .domain → addr'.host = addr.host

/--
A name is kept if it is a C string that is seen as a name, or if it is the text of an address just as
`inet_ntop` prints it.
-/
def Socks5Addr.Survives (I : Inet) (addr : Socks5Addr) : Prop :=
  addr.atyp = .domain
    → (0 ∉ addr.host ∧ 58 ∉ addr.host ∧ ∃ b ∈ addr.host, NonNumeric b)
      ∨ ∃ f a, addr.host = (I.ntop f a).bytes

theorem take_drop_encodeAddr (hI : I.Lawful) {P : List Byte} {addr : Socks5Addr}
    (h : parseAddr I P = some addr) (uninit : Uninit) (f : Family) (hatyp : addr.atyp = f.atyp)
    : ((encodeAddr I uninit (.ofBuf addr.host) addr.port).drop 1).take f.size
        = (P.drop 1).take f.size := by
  have hhost := host_of_parseAddr h f hatyp
  have hle := (parsed_of_parseAddr h).consumed_le
  have hlen : 1 + f.size ≤ P.length := by
    cases f with
    | inet =>
      rw [((parsed_of_parseAddr h).ipv4 hatyp).1] at hle
      exact Nat.le_trans (by decide) hle
    | inet6 =>
      rw [((parsed_of_parseAddr h).ipv6 hatyp).1] at hle
      exact Nat.le_trans (by decide) hle
  -- The bytes that were parsed are in front of the port.
  have hbytes : (bytesAt (.ofList 0 P) 1 f.size).val = (P.drop 1).take f.size := by
    have := Mem.read_ofList_append 0 (P.take 1) ((P.drop 1).take f.size) ((P.drop 1).drop f.size)
    rw [List.append_assoc, List.take_append_drop, List.take_append_drop, List.length_take,
      List.length_take, List.length_drop, Nat.min_eq_left (by omega), Nat.min_eq_left (by omega)] at this
    exact this
  rw [hhost, CString.ofBuf_bytes]
  unfold encodeAddr
  rw [socks5HostParse_ntop hI]
  cases f with
  | inet =>
    dsimp only [Family.atyp]
    rw [resolved_ntop hI, List.drop_one, List.tail_cons, ← hbytes]
    exact List.take_left' (Mem.length_read _ _ _)
  | inet6 =>
    dsimp only [Family.atyp]
    rw [resolved_ntop hI, List.drop_one, List.tail_cons, ← hbytes]
    exact List.take_left' (Mem.length_read _ _ _)

theorem reachedHost_eq_iff (hI : I.Lawful) (uninit : Uninit) (host : List Byte)
    : (reachedHost I uninit (.ofBuf host)).bytes = host
        ↔ (0 ∉ host ∧ 58 ∉ host ∧ ∃ b ∈ host, NonNumeric b) ∨ ∃ f a, host = (I.ntop f a).bytes := by
  constructor
  . intro h
    have hnul : 0 ∉ host := by
      rw [← h]
      exact CString.noNul _
    unfold reachedHost at h
    cases hparse : socks5HostParse (.ofBuf host) with
    | ipv4 =>
      rw [hparse] at h
      exact .inr ⟨.inet, _, h.symm⟩
    | ipv6 =>
      rw [hparse] at h
      exact .inr ⟨.inet6, _, h.symm⟩
    | domain =>
      rw [socks5HostParse_eq_domain_iff, CString.ofBuf_of_noNul host hnul] at hparse
      exact .inl ⟨hnul, hparse⟩
  . intro h
    rcases h with ⟨hnul, hname⟩ | ⟨f, a, rfl⟩
    . have hbytes := CString.ofBuf_of_noNul host hnul
      have hparse : socks5HostParse (.ofBuf host) = .domain := by
        rw [socks5HostParse_eq_domain_iff, hbytes]
        exact hname
      rw [reachedHost, hparse]
      exact hbytes
    . rw [CString.ofBuf_bytes, reachedHost, socks5HostParse_ntop hI]
      cases f with
      | inet =>
        dsimp only [Family.atyp]
        rw [resolved_ntop hI]
      | inet6 =>
        dsimp only [Family.atyp]
        rw [resolved_ntop hI]

/-- An address that was parsed is encoded and parsed again. -/
theorem destination_survives_iff (hI : I.Lawful) (uninit : Uninit) (P : List Byte) (addr : Socks5Addr)
    (h : parseAddr I P = some addr)
    : (∃ e addr', socks5AddrInit I uninit (.ofBuf addr.host) addr.port = some e
          ∧ parseAddr I e = some addr' ∧ SameDestination P e addr addr')
        ↔ addr.Survives I := by
  have hparsed := parsed_of_parseAddr h
  have hlen := CString.length_ofBuf_le addr.host
  have hagain := parseAddr_encodeAddr hI uninit (.ofBuf addr.host)
    (Nat.lt_of_le_of_lt hlen hparsed.length_host) hparsed.port
  constructor
  . intro ⟨e, addr', hinit, haddr', hsame⟩ hatyp
    rw [socks5AddrInit_eq, Option.some.injEq] at hinit
    rw [← hinit, hagain, Option.some.injEq] at haddr'
    have hhost := hsame.domain hatyp
    rw [← haddr'] at hhost
    exact (reachedHost_eq_iff hI uninit addr.host).mp hhost
  . intro hsurvives
    refine ⟨_, _, socks5AddrInit_eq _ _ _, hagain, rfl, ?_, ?_⟩
    . intro f hatyp
      refine ⟨?_, take_drop_encodeAddr hI h uninit f hatyp⟩
      exact hparsed.socks5HostParse hI (by rw [hatyp]; cases f <;> simp [Family.atyp])
    . intro hatyp
      exact (reachedHost_eq_iff hI uninit addr.host).mpr (hsurvives hatyp)

theorem destination_survives_name
    : let P : List Byte := [3, 1, 97, 0, 80, 9]
      ∃ e addr', socks5AddrInit .text .zero (.ofBuf [97]) 80 = some e
        ∧ parseAddr .text e = some addr' ∧ SameDestination P e ⟨5, .domain, [97], 80⟩ addr' := by
  intro P
  apply (destination_survives_iff Inet.text_lawful .zero P ⟨5, .domain, [97], 80⟩
    (by decide +kernel)).mpr
  intro _
  exact .inl (by decide)

/-- The name `1.2`, which has the class of an address but is none: whatever is on the stack is sent. -/
theorem destination_lost
    : parseAddr .text [3, 3, 49, 46, 50, 0, 80] = some ⟨7, .domain, [49, 46, 50], 80⟩
        ∧ ∃ e addr', socks5AddrInit .text .zero (.ofBuf [49, 46, 50]) 80 = some e
          ∧ e = [1, 0, 0, 0, 0, 0, 80] ∧ parseAddr .text e = some addr'
          ∧ ¬SameDestination [3, 3, 49, 46, 50, 0, 80] e ⟨7, .domain, [49, 46, 50], 80⟩ addr' := by
  refine ⟨by decide +kernel, [1, 0, 0, 0, 0, 0, 80],
    ⟨7, .ipv4, (Inet.text.ntop .inet ⟨[0, 0, 0, 0], rfl⟩).bytes, 80⟩, by decide +kernel, rfl,
    by decide +kernel, ?_⟩
  intro hsame
  have := hsame.domain rfl
  revert this
  decide +kernel

/--
The hosts that can be represented: texts that `inet_pton` takes for the kind of address they look like,
and names whose length fits into its byte.
-/
def Inet.Representable (I : Inet) (host : CString) : Prop :=
  match socks5HostParse host with
  | .ipv4 => (I.pton .inet host).isSome = true
  | .ipv6 => (I.pton .inet6 host).isSome = true
  | .domain => host.bytes.length ≤ 255

instance (host : CString) : Decidable (I.Representable host) :=
  match h : socks5HostParse host with
  | .ipv4 => decidable_of_iff ((I.pton .inet host).isSome = true) (by rw [Inet.Representable, h])
  | .ipv6 => decidable_of_iff ((I.pton .inet6 host).isSome = true) (by rw [Inet.Representable, h])
  | .domain => decidable_of_iff (host.bytes.length ≤ 255) (by rw [Inet.Representable, h])

theorem Inet.Representable.encodes {host : CString} (h : I.Representable host) : I.Encodes host := by
  unfold Inet.Representable at h
  unfold Inet.Encodes
  cases hparse : Xsocks.socks5HostParse host with
  | ipv4 =>
    rw [hparse] at h
    exact h
  | ipv6 =>
    rw [hparse] at h
    exact h
  | domain => trivial

theorem Inet.Representable.encodedLen_le {host : CString} (h : I.Representable host)
    : encodedLen host ≤ SOCKS5_ADDR_MAX_LEN := by
  unfold Inet.Representable at h
  unfold encodedLen SOCKS5_ADDR_MAX_LEN
  cases hparse : Xsocks.socks5HostParse host with
  | ipv4 =>
    dsimp only
    decide
  | ipv6 =>
    dsimp only
    decide
  | domain =>
    rw [hparse] at h
    dsimp only at h ⊢
    omega

/-- The encoder gives up on `host` exactly if it cannot represent it, and its encodings are proper ones. -/
structure RejectsUnrepresentable (I : Inet) (host : CString) (port : Nat) : Prop where
  init : ∀ uninit, socks5AddrInit I uninit host port = none ↔ ¬I.Representable host
  create : ∀ uninit addrBuf bufLen,
    socks5AddrCreate I uninit host port addrBuf bufLen = (ERR, addrBuf, bufLen)
      ↔ ¬I.Representable host
  determined : ∀ uninit uninit' e e', socks5AddrInit I uninit host port = some e
    → socks5AddrInit I uninit' host port = some e' → e = e'
  fits : ∀ uninit e, socks5AddrInit I uninit host port = some e → e.length ≤ SOCKS5_ADDR_MAX_LEN

theorem socks5AddrCreate_ne (uninit : Uninit) (host : CString) (port : Nat) (addrBuf : Mem Byte)
    (bufLen : Int)
    : socks5AddrCreate I uninit host port addrBuf bufLen ≠ (ERR, addrBuf, bufLen) := by
  rw [socks5AddrCreate, socks5AddrInit_eq]
  intro h
  have := congrArg Prod.fst h
  contradiction

theorem rejectsUnrepresentable_iff (host : CString) (port : Nat)
    : RejectsUnrepresentable I host port ↔ I.Representable host := by
  constructor
  . intro h
    by_contra hnot
    have hnone := (h.init .zero).mpr hnot
    rw [socks5AddrInit_eq] at hnone
    contradiction
  . intro h
    constructor
    case init =>
      intro uninit
      simp [socks5AddrInit_eq, h]
    case create =>
      intro uninit addrBuf bufLen
      simp [socks5AddrCreate_ne, h]
    case determined =>
      intro uninit uninit' e e' he he'
      rw [socks5AddrInit_eq, Option.some.injEq] at he he'
      have hzero := (encodes_iff_encodeAddr host port).mp h.encodes
      rw [← he, ← he', hzero uninit, hzero uninit']
    case fits =>
      intro uninit e he
      rw [socks5AddrInit_eq, Option.some.injEq] at he
      rw [← he, length_encodeAddr]
      exact h.encodedLen_le

/-- The text `1.2`, and a name of 256 bytes. -/
theorem unrepresentable_encoded
    : socks5AddrInit .text .zero (.ofBuf [49, 46, 50]) 80 = some [1, 0, 0, 0, 0, 0, 80]
        ∧ socks5AddrInit .text .one (.ofBuf [49, 46, 50]) 80 = some [1, 1, 1, 1, 1, 0, 80]
        ∧ ¬RejectsUnrepresentable .text (.ofBuf [49, 46, 50]) 80
        ∧ ¬RejectsUnrepresentable .text (.ofBuf (List.replicate 256 97)) 80 := by
  refine ⟨by decide +kernel, by decide +kernel, ?_, ?_⟩
  . intro h
    have hnone := (h.init .zero).mpr (by decide +kernel)
    rw [socks5AddrInit_eq] at hnone
    contradiction
  . intro h
    have hnone := (h.init .zero).mpr (by decide +kernel)
    rw [socks5AddrInit_eq] at hnone
    contradiction

end Xsocks
