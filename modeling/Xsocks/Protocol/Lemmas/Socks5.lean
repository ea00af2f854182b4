import Xsocks.Protocol.Lemmas.Inet

/-!
This module contains the properties of the SOCKS5 address codec: what the parser reads, how long the
encoding of a parsed address is and when it is the one that was parsed.
-/

namespace Xsocks

variable {I : Inet}

namespace Socks5Atyp

theorem ofByte?_toByte (a : Socks5Atyp) : ofByte? a.toByte = some a := by
  cases a <;> rfl

end Socks5Atyp

section

variable {b b' : Mem Byte} {n : Nat}

theorem socks5AddrParse_congr (h : ∀ i, i < n → b i = b' i) (hostLen : Nat)
    : socks5AddrParse I b n hostLen = socks5AddrParse I b' n hostLen := by
  by_cases hn : n = 0
  . subst hn
    have hnone : ∀ b : Mem Byte, socks5AddrParse I b (0 : Nat) hostLen = none := by
      intro b
      unfold socks5AddrParse
      split
      . simp [socks5AddrParse.ip, Family.size]
      . simp [socks5AddrParse.ip, Family.size]
      . dsimp only
        rw [if_pos (by omega)]
      . rfl
    rw [hnone b, hnone b']
  . have hip : ∀ atyp f, socks5AddrParse.ip I b n hostLen atyp f
        = socks5AddrParse.ip I b' n hostLen atyp f := by
      intro atyp f
      unfold socks5AddrParse.ip
      split
      . rfl
      . next hle =>
        have haddr : bytesAt b 1 f.size = bytesAt b' 1 f.size := by
          apply Subtype.ext
          apply Mem.read_congr
          intro i hi
          exact h _ (by omega)
        have hport : ntohs b (1 + f.size) = ntohs b' (1 + f.size) := by
          rw [ntohs, ntohs, h _ (by omega), h _ (by omega)]
        rw [haddr, hport]
    unfold socks5AddrParse
    rw [h 0 (by omega)]
    split
    . exact hip _ _
    . exact hip _ _
    . by_cases hn1 : n = 1
      . dsimp only
        rw [if_pos (by omega), if_pos (by omega)]
      . rw [h 1 (by omega)]
        dsimp only
        split
        . rfl
        . next hle =>
          rw [Mem.read_congr 2 _ (fun i hi => h (2 + i) (by omega)), ntohs, ntohs,
            h _ (by omega), h _ (by omega)]
    . rfl

end

/-- The address at the start of the bytes `P`, as the read handlers parse it. -/
def parseAddr (I : Inet) (P : List Byte) : Option Socks5Addr :=
  socks5AddrParse I (.ofList 0 P) P.length HOSTNAME_MAX_LEN

theorem socks5AddrParse_eq (P : List Byte) {b : Mem Byte} (h : b.read 0 P.length = P)
    : socks5AddrParse I b P.length HOSTNAME_MAX_LEN = parseAddr I P := by
  apply socks5AddrParse_congr
  intro i hi
  exact Mem.eq_ofList_of_read h 0 hi

theorem socks5AddrParse_of_consumed_le {b : Mem Byte} {n n' : Int} {hostLen : Nat} {addr : Socks5Addr}
    (h : socks5AddrParse I b n hostLen = some addr) (hle : addr.consumed ≤ n')
    : addr.consumed ≤ n ∧ socks5AddrParse I b n' hostLen = some addr := by
  have hip : ∀ atyp f, socks5AddrParse.ip I b n hostLen atyp f = some addr
      → addr.consumed ≤ n ∧ socks5AddrParse.ip I b n' hostLen atyp f = some addr := by
    intro atyp f h
    unfold socks5AddrParse.ip at h ⊢
    split at h
    . contradiction
    . next hn =>
      split at h
      . contradiction
      . next host heq =>
        simp only [Option.some.injEq] at h
        subst h
        dsimp only at hle ⊢
        rw [if_neg (by omega)]
        exact ⟨by omega, rfl⟩
  unfold socks5AddrParse at h ⊢
  split at h
  . exact hip _ _ h
  . exact hip _ _ h
  . dsimp only at h ⊢
    split at h
    . contradiction
    . next hn =>
      simp only [Option.some.injEq] at h
      subst h
      dsimp only at hle ⊢
      rw [if_neg (by omega)]
      exact ⟨by omega, rfl⟩
  . contradiction

structure Socks5Addr.Parsed (I : Inet) (n : Nat) (addr : Socks5Addr) : Prop where
  consumed_le : addr.consumed ≤ n
  length_host : addr.host.length < 256
  port : addr.port < 65536
  ipv4 : addr.atyp = .ipv4 → addr.consumed = 7 ∧ ∃ a, addr.host = (I.ntop .inet a).bytes
  ipv6 : addr.atyp = .ipv6 → addr.consumed = 19 ∧ ∃ a, addr.host = (I.ntop .inet6 a).bytes
  domain : addr.atyp = .domain → addr.consumed = 4 + addr.host.length

theorem ntohs_lt (b : Mem Byte) (off : Nat) : ntohs b off < 65536 := by
  have h0 := (b off).toNat_lt
  have h1 := (b (off + 1)).toNat_lt
  rw [ntohs]
  omega

theorem parsed_of_parseAddr {P : List Byte} {addr : Socks5Addr} (h : parseAddr I P = some addr)
    : addr.Parsed I P.length := by
  have hle := (socks5AddrParse_of_consumed_le h (Int.le_refl _)).1
  have hntop : ∀ f a host, I.inetNtop f a HOSTNAME_MAX_LEN = some host
      → host = I.ntop f a ∧ host.bytes.length < 256 := by
    intro f a host hntop
    unfold Inet.inetNtop at hntop
    split at hntop
    . next hlen =>
      simp only [Option.some.injEq] at hntop
      rw [← hntop]
      exact ⟨rfl, hlen⟩
    . contradiction
  unfold parseAddr socks5AddrParse socks5AddrParse.ip at h
  split at h
  case h_1 =>
    split at h
    . contradiction
    . split at h
      . contradiction
      . next host heq =>
        obtain ⟨hhost, hlen⟩ := hntop _ _ _ heq
        simp only [Option.some.injEq] at h
        subst h
        exact ⟨by omega, hlen, ntohs_lt _ _, fun _ => ⟨rfl, _, by rw [hhost]⟩, by simp, by simp⟩
  case h_2 =>
    split at h
    . contradiction
    . split at h
      . contradiction
      . next host heq =>
        obtain ⟨hhost, hlen⟩ := hntop _ _ _ heq
        simp only [Option.some.injEq] at h
        subst h
        exact ⟨by omega, hlen, ntohs_lt _ _, by simp, fun _ => ⟨rfl, _, by rw [hhost]⟩, by simp⟩
  case h_3 =>
    dsimp only at h
    split at h
    . contradiction
    . simp only [Option.some.injEq] at h
      subst h
      have hlt := (Mem.ofList 0 P 1).toNat_lt
      refine ⟨by omega, by simpa using hlt, ntohs_lt _ _, by simp, by simp, ?_⟩
      intro _
      simp
      omega
  case h_4 => contradiction

theorem parseAddr_of_isPrefix {P P' : List Byte} {addr : Socks5Addr}
    (h : parseAddr I P' = some addr) (hP : P <+: P') (hle : addr.consumed ≤ P.length)
    : parseAddr I P = some addr := by
  have hread : (Mem.ofList 0 P').read 0 P.length = P := by
    obtain ⟨Q, rfl⟩ := hP
    have := Mem.read_ofList_append 0 [] P Q
    simpa using this
  rw [← socks5AddrParse_eq P hread]
  exact (socks5AddrParse_of_consumed_le h (by omega)).2

theorem parseAddr_of_isPrefix_right {P P' : List Byte} {addr : Socks5Addr}
    (h : parseAddr I P = some addr) (hP : P <+: P')
    : parseAddr I P' = some addr := by
  have hread : (Mem.ofList 0 P').read 0 P.length = P := by
    obtain ⟨Q, rfl⟩ := hP
    have := Mem.read_ofList_append 0 [] P Q
    simpa using this
  have hle := (parsed_of_parseAddr h).consumed_le
  have hlen := hP.length_le
  rw [← socks5AddrParse_eq P hread] at h
  exact (socks5AddrParse_of_consumed_le h (by omega)).2

/-- The address `addr_v4` or `addr_v6` of `socks5AddrInit`. A text that is no address leaves it as it was. -/
def Inet.resolved (I : Inet) (uninit : Uninit) (f : Family) (host : CString) : Bytes f.size :=
  (I.pton f host).getD (uninit f)

def encodeAddr (I : Inet) (uninit : Uninit) (host : CString) (port : Nat) : List Byte :=
  match socks5HostParse host with
  | .ipv4 => Socks5Atyp.ipv4.toByte :: ((I.resolved uninit .inet host).val ++ htons port)
  | .ipv6 => Socks5Atyp.ipv6.toByte :: ((I.resolved uninit .inet6 host).val ++ htons port)
  | .domain =>
    Socks5Atyp.domain.toByte :: UInt8.ofNat host.bytes.length :: (host.bytes ++ htons port)

def encodedLen (host : CString) : Nat :=
  match socks5HostParse host with
  | .ipv4 => 7
  | .ipv6 => 19
  | .domain => 4 + host.bytes.length

def reachedHost (I : Inet) (uninit : Uninit) (host : CString) : CString :=
  match socks5HostParse host with
  | .ipv4 => I.ntop .inet (I.resolved uninit .inet host)
  | .ipv6 => I.ntop .inet6 (I.resolved uninit .inet6 host)
  | .domain => host

section

variable (uninit : Uninit) (host : CString) (port : Nat)

theorem socks5AddrInit.ip_eq (atyp : Socks5Atyp) (f : Family)
    : ip I uninit host port atyp f
        = some (atyp.toByte :: ((I.resolved uninit f host).val ++ htons port)) := by
  unfold ip Inet.inetPton Inet.resolved
  cases I.pton f host <;> rfl

@[simp]
theorem socks5AddrInit_eq
    : socks5AddrInit I uninit host port = some (encodeAddr I uninit host port) := by
  unfold socks5AddrInit encodeAddr
  cases socks5HostParse host with
  | ipv4 => exact socks5AddrInit.ip_eq uninit host port .ipv4 .inet
  | ipv6 => exact socks5AddrInit.ip_eq uninit host port .ipv6 .inet6
  | domain => rfl

theorem length_encodeAddr
    : (encodeAddr I uninit host port).length = encodedLen host := by
  unfold encodeAddr encodedLen
  cases socks5HostParse host with
  | ipv4 => simp [htons, (I.resolved uninit .inet host).property, Family.size]
  | ipv6 => simp [htons, (I.resolved uninit .inet6 host).property, Family.size]
  | domain =>
    simp [htons]
    omega

end

section

theorem ntohs_ofList (xs : List Byte) {port : Nat} (hport : port < 65536)
    : ntohs (.ofList 0 (xs ++ htons port)) xs.length = port := by
  simp [ntohs, Mem.ofList, htons, UInt8.toNat_ofNat']
  omega

theorem parseAddr_ip (hI : I.Lawful) (atyp : Socks5Atyp) (f : Family) (addr : Bytes f.size) {port : Nat}
    (hport : port < 65536)
    : socks5AddrParse.ip I (.ofList 0 (atyp.toByte :: (addr.val ++ htons port))) (3 + f.size : Nat)
          HOSTNAME_MAX_LEN atyp f
        = some ⟨3 + f.size, atyp, (I.ntop f addr).bytes, port⟩ := by
  have hlen := hI.length_ntop f addr
  have haddr : bytesAt (.ofList 0 (atyp.toByte :: (addr.val ++ htons port))) 1 f.size = addr := by
    apply Subtype.ext
    have := Mem.read_ofList_append 0 [atyp.toByte] addr.val (htons port)
    rw [addr.property] at this
    simpa [bytesAt] using this
  have hntohs := ntohs_ofList (atyp.toByte :: addr.val) hport
  rw [List.length_cons, addr.property, Nat.add_comm] at hntohs
  unfold socks5AddrParse.ip Inet.inetNtop
  rw [if_neg (by omega), haddr, if_pos (by rw [HOSTNAME_MAX_LEN]; omega)]
  simp only [Option.some.injEq, Socks5Addr.mk.injEq, true_and]
  exact ⟨by omega, hntohs⟩

theorem parseAddr_encodeAddr (hI : I.Lawful) (uninit : Uninit) (host : CString) {port : Nat}
    (hhost : host.bytes.length < 256) (hport : port < 65536)
    : parseAddr I (encodeAddr I uninit host port)
        = some {
            consumed := (encodeAddr I uninit host port).length
            atyp := socks5HostParse host
            host := (reachedHost I uninit host).bytes
            port := port
          } := by
  unfold parseAddr
  rw [length_encodeAddr]
  unfold encodeAddr reachedHost encodedLen
  cases socks5HostParse host with
  | ipv4 => exact parseAddr_ip hI .ipv4 .inet _ hport
  | ipv6 => exact parseAddr_ip hI .ipv6 .inet6 _ hport
  | domain =>
    have hnat : (UInt8.ofNat host.bytes.length).toNat = host.bytes.length := by
      rw [UInt8.toNat_ofNat']
      omega
    have hread := Mem.read_ofList_append 0
      [Socks5Atyp.domain.toByte, UInt8.ofNat host.bytes.length] host.bytes (htons port)
    have hntohs := ntohs_ofList
      (Socks5Atyp.domain.toByte :: UInt8.ofNat host.bytes.length :: host.bytes) hport
    simp only [List.length_cons, List.length_nil, List.cons_append, List.nil_append] at hread hntohs
    have h0 : Mem.ofList 0 (Socks5Atyp.domain.toByte :: UInt8.ofNat host.bytes.length
      :: (host.bytes ++ htons port)) 0 = Socks5Atyp.domain.toByte := rfl
    have h1 : Mem.ofList 0 (Socks5Atyp.domain.toByte :: UInt8.ofNat host.bytes.length
      :: (host.bytes ++ htons port)) 1 = UInt8.ofNat host.bytes.length := rfl
    dsimp only
    unfold socks5AddrParse
    rw [h0, h1, Socks5Atyp.ofByte?_toByte, hnat]
    dsimp only
    rw [if_neg (by omega), hread, Nat.add_comm 2, hntohs]
    simp only [Option.some.injEq, Socks5Addr.mk.injEq, and_true]
    omega

end

theorem htons_mod (port : Nat) : htons (port % 65536) = htons port := by
  have hhigh : UInt8.ofNat (port % 65536 / 256) = UInt8.ofNat (port / 256) := by
    apply UInt8.toNat_inj.mp
    rw [UInt8.toNat_ofNat', UInt8.toNat_ofNat']
    omega
  have hlow : UInt8.ofNat (port % 65536) = UInt8.ofNat port := by
    apply UInt8.toNat_inj.mp
    rw [UInt8.toNat_ofNat', UInt8.toNat_ofNat']
    omega
  rw [htons, htons, hhigh, hlow]

theorem encodeAddr_mod (uninit : Uninit) (host : CString) (port : Nat)
    : encodeAddr I uninit host (port % 65536) = encodeAddr I uninit host port := by
  unfold encodeAddr
  rw [htons_mod]

theorem parseAddr_encodeAddr_append (hI : I.Lawful) (uninit : Uninit) (host : CString) (port : Nat)
    (hhost : host.bytes.length < 256) (payload : List Byte)
    : ∃ addr, parseAddr I (encodeAddr I uninit host port ++ payload) = some addr
        ∧ addr.consumed = (encodeAddr I uninit host port).length := by
  have hparse := parseAddr_encodeAddr hI uninit host hhost (Nat.mod_lt port (by decide : 0 < 65536))
  rw [encodeAddr_mod] at hparse
  exact ⟨_, parseAddr_of_isPrefix_right hparse (List.prefix_append _ _), rfl⟩

def Family.atyp : Family → Socks5Atyp
  | inet => .ipv4
  | inet6 => .ipv6

theorem socks5HostParse_ntop (hI : I.Lawful) (f : Family) (a : Bytes f.size)
    : socks5HostParse (I.ntop f a) = f.atyp := by
  unfold socks5HostParse isIPv6Addr
  cases f with
  | inet =>
    have htext := hI.ntop_inet a
    have hcolon : (I.ntop .inet a).bytes.contains 58 = false := by
      rw [List.contains_eq_mem, decide_eq_false_iff_not]
      intro hmem
      have := htext 58 hmem
      simp at this
    rw [hcolon, if_neg (by simp), if_pos]
    . rfl
    . rw [List.all_eq_true]
      intro b hb
      simpa using htext b hb
  | inet6 =>
    rw [if_pos]
    . rfl
    . simpa using hI.ntop_inet6 a

theorem resolved_ntop (hI : I.Lawful) (uninit : Uninit) (f : Family) (a : Bytes f.size)
    : I.resolved uninit f (I.ntop f a) = a := by
  rw [Inet.resolved, hI.pton_ntop, Option.getD_some]

theorem drop_eq_drop_iff {P : List Byte} {s a : Nat} (ha : a ≤ P.length)
    : P.drop s = P.drop a ↔ s = a ∨ a < s ∧ P.drop a = [] := by
  constructor
  . intro h
    have hlen := congrArg List.length h
    simp only [List.length_drop] at hlen
    by_cases hlt : a < s
    . right
      refine ⟨hlt, ?_⟩
      rw [List.drop_eq_nil_iff]
      omega
    . left
      omega
  . intro h
    rcases h with h | ⟨hlt, hnil⟩
    . rw [h]
    . rw [hnil, List.drop_eq_nil_iff]
      rw [List.drop_eq_nil_iff] at hnil
      omega

namespace Socks5Addr

/--
The address is as long as the encoding of its host, or there is no payload that a longer encoding
could cut into. A name that looks like an address is encoded as one.
-/
def Strips (addr : Socks5Addr) (payload : List Byte) : Prop :=
  match addr.atyp, socks5HostParse (.ofBuf addr.host) with
  | .domain, .domain => 0 ∉ addr.host
  | .domain, .ipv4 => addr.host.length = 3 ∨ addr.host.length < 3 ∧ payload = []
  | .domain, .ipv6 => addr.host.length = 15 ∨ addr.host.length < 15 ∧ payload = []
  | _, _ => True

variable {addr : Socks5Addr} {n : Nat}

theorem Parsed.consumed_pos (h : addr.Parsed I n) : 0 < addr.consumed := by
  cases hatyp : addr.atyp with
  | ipv4 =>
    rw [(h.ipv4 hatyp).1]
    decide
  | ipv6 =>
    rw [(h.ipv6 hatyp).1]
    decide
  | domain =>
    rw [h.domain hatyp]
    omega

theorem Parsed.socks5HostParse (h : addr.Parsed I n) (hI : I.Lawful) (hatyp : addr.atyp ≠ .domain)
    : Xsocks.socks5HostParse (.ofBuf addr.host) = addr.atyp := by
  cases hat : addr.atyp with
  | domain => contradiction
  | ipv4 =>
    obtain ⟨-, a, ha⟩ := h.ipv4 hat
    rw [ha, CString.ofBuf_bytes]
    exact socks5HostParse_ntop hI .inet a
  | ipv6 =>
    obtain ⟨-, a, ha⟩ := h.ipv6 hat
    rw [ha, CString.ofBuf_bytes]
    exact socks5HostParse_ntop hI .inet6 a

theorem Parsed.strips_iff {P : List Byte} (h : addr.Parsed I P.length) (hI : I.Lawful)
    : P.drop (encodedLen (.ofBuf addr.host)) = P.drop addr.consumed
        ↔ addr.Strips (P.drop addr.consumed) := by
  rw [drop_eq_drop_iff h.consumed_le, Strips, encodedLen]
  cases hatyp : addr.atyp with
  | ipv4 =>
    rw [h.socks5HostParse hI (by simp [hatyp]), hatyp]
    simp [(h.ipv4 hatyp).1]
  | ipv6 =>
    rw [h.socks5HostParse hI (by simp [hatyp]), hatyp]
    simp [(h.ipv6 hatyp).1]
  | domain =>
    have hconsumed := h.domain hatyp
    have hle := CString.length_ofBuf_le addr.host
    cases Xsocks.socks5HostParse (.ofBuf addr.host) with
    | ipv4 =>
      dsimp only
      apply or_congr
      . omega
      . apply and_congr_left'
        omega
    | ipv6 =>
      dsimp only
      apply or_congr
      . omega
      . apply and_congr_left'
        omega
    | domain =>
      dsimp only
      rw [← CString.length_ofBuf_eq_iff, or_iff_left (by omega)]
      omega

end Socks5Addr

def Inet.Encodes (I : Inet) (host : CString) : Prop :=
  match socks5HostParse host with
  | .ipv4 => (I.pton .inet host).isSome = true
  | .ipv6 => (I.pton .inet6 host).isSome = true
  | .domain => True

instance (I : Inet) (host : CString) : Decidable (I.Encodes host) :=
  match h : socks5HostParse host with
  | .ipv4 => decidable_of_iff ((I.pton .inet host).isSome = true) (by rw [Inet.Encodes, h])
  | .ipv6 => decidable_of_iff ((I.pton .inet6 host).isSome = true) (by rw [Inet.Encodes, h])
  | .domain => isTrue (by rw [Inet.Encodes, h]; trivial)

def Uninit.zero : Uninit :=
  fun f => ⟨List.replicate f.size 0, List.length_replicate⟩

def Uninit.one : Uninit :=
  fun f => ⟨List.replicate f.size 1, List.length_replicate⟩

theorem encodes_iff_resolved {host : CString} (f : Family)
    : (I.pton f host).isSome = true ↔ ∀ uninit, I.resolved uninit f host = I.resolved .zero f host := by
  unfold Inet.resolved
  cases hpton : I.pton f host with
  | some addr => simp
  | none =>
    simp only [Option.isSome_none, Bool.false_eq_true, Option.getD_none, false_iff, not_forall]
    refine ⟨.one, ?_⟩
    intro h
    have hval := congrArg Subtype.val h
    cases f <;> simp [Uninit.one, Uninit.zero, Family.size] at hval

theorem encodes_iff_reachedHost (hI : I.Lawful) (host : CString)
    : I.Encodes host ↔ ∀ uninit, reachedHost I uninit host = reachedHost I .zero host := by
  have hntop : ∀ f a a', I.ntop f a = I.ntop f a' ↔ a = a' := by
    intro f a a'
    constructor
    . intro h
      have := hI.pton_ntop f a
      rw [h, hI.pton_ntop] at this
      simpa using this.symm
    . intro h
      rw [h]
  unfold Inet.Encodes reachedHost
  cases socks5HostParse host with
  | ipv4 => simp only [hntop, encodes_iff_resolved]
  | ipv6 => simp only [hntop, encodes_iff_resolved]
  | domain => simp

theorem encodes_iff_encodeAddr (host : CString) (port : Nat)
    : I.Encodes host ↔ ∀ uninit, encodeAddr I uninit host port = encodeAddr I .zero host port := by
  have hval : ∀ f (a a' : Bytes f), a.val = a'.val ↔ a = a' := fun _ _ _ => Subtype.ext_iff.symm
  unfold Inet.Encodes encodeAddr
  cases socks5HostParse host with
  | ipv4 => simp [encodes_iff_resolved, hval]
  | ipv6 => simp [encodes_iff_resolved, hval]
  | domain => simp

end Xsocks
