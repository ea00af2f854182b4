import Xsocks.Core.Impl.Resolve

/-!
This module contains the result of `netUdpGetSockAddrEx` for every list of addresses: only the first
entry decides whether the preferred family is honoured.
-/

namespace Xsocks

def preferAf (ipv6First : Bool) : Nat :=
  if ipv6First then AF_INET6 else AF_INET

def preferred (ipv6First : Bool) (servinfo : List AddrInfo) : Option AddrInfo :=
  (servinfo.find? fun p => p.aiFamily = preferAf ipv6First).or servinfo.head?

def sockAddrSize (af : Nat) : Nat :=
  if af = AF_INET6 then sizeofSockAddrIpV6 else sizeofSockAddrIpV4

def SockAddrEx.Holds (sa : SockAddrEx) (p : AddrInfo) (len : Nat) : Prop :=
  sa.saLen = len ∧ sa.sa.read 0 len = p.aiAddr.read 0 len

/-- What is asked of `netUdpGetSockAddrEx`, whatever `sa` held before. -/
structure Prefers (res : GetAddrInfo) (ipv6First : Bool) : Prop where
  found : ∀ servinfo sa, res = .ok servinfo → servinfo ≠ [] →
    (netUdpGetSockAddrEx res ipv6First sa).rc = OK
      ∧ ∃ p, preferred ipv6First servinfo = some p
        ∧ (netUdpGetSockAddrEx res ipv6First sa).sa.Holds p (sockAddrSize p.aiFamily)
  stored : ∀ sa, (netUdpGetSockAddrEx res ipv6First sa).rc = OK →
    ∃ servinfo p, res = .ok servinfo ∧ p ∈ servinfo
      ∧ (netUdpGetSockAddrEx res ipv6First sa).sa.Holds p (sockAddrSize p.aiFamily)
  failed : ∀ sa, (netUdpGetSockAddrEx res ipv6First sa).rc ≠ OK →
    (netUdpGetSockAddrEx res ipv6First sa).rc = ERR
      ∧ ((∃ text, res = .error text) ∨ res = .ok [])

@[simp]
theorem SockAddrEx.copy_saLen (sa : SockAddrEx) (src : Mem Byte) (len : Nat)
    : (sa.copy src len).saLen = len := by
  rfl

theorem SockAddrEx.read_copy (sa : SockAddrEx) (src : Mem Byte) (len : Nat)
    : (sa.copy src len).sa.read 0 len = src.read 0 len := by
  have h := Mem.read_write_self sa.sa 0 (src.read 0 len)
  rw [Mem.length_read] at h
  exact h

theorem SockAddrEx.copy_apply (sa : SockAddrEx) (src : Mem Byte) (len : Nat) {i : Nat} (h : i < len)
    : (sa.copy src len).sa i = src i := by
  have hget := Mem.getElem?_read (sa.copy src len).sa 0 len i
  rw [SockAddrEx.read_copy, Mem.getElem?_read, if_pos h, if_pos h, Nat.zero_add, Option.some_inj] at hget
  exact hget.symm

theorem SockAddrEx.holds_copy (sa : SockAddrEx) (p : AddrInfo) (len : Nat)
    : (sa.copy p.aiAddr len).Holds p len :=
  ⟨rfl, SockAddrEx.read_copy ..⟩

theorem SockAddrEx.holds_copyFamily (sa : SockAddrEx) (p : AddrInfo)
    (h : p.aiFamily = AF_INET ∨ p.aiFamily = AF_INET6)
    : (sa.copyFamily p).Holds p (sockAddrSize p.aiFamily) := by
  unfold SockAddrEx.copyFamily sockAddrSize
  rcases h with h | h
  . have hne : AF_INET ≠ AF_INET6 := by decide
    rw [h, if_pos rfl, if_neg hne]
    exact SockAddrEx.holds_copy ..
  . have hne : AF_INET6 ≠ AF_INET := by decide
    rw [h, if_neg hne, if_pos rfl, if_pos rfl]
    exact SockAddrEx.holds_copy ..

theorem preferAf_cases (ipv6First : Bool)
    : preferAf ipv6First = AF_INET ∨ preferAf ipv6First = AF_INET6 := by
  cases ipv6First
  . exact .inl rfl
  . exact .inr rfl

theorem netUdpGetSockAddrEx_prefer {p : AddrInfo} {servinfo : List AddrInfo} {ipv6First : Bool}
    (h : p.aiFamily = preferAf ipv6First) (sa : SockAddrEx)
    : netUdpGetSockAddrEx (.ok (p :: servinfo)) ipv6First sa = ⟨OK, none, sa.copyFamily p⟩ := by
  unfold preferAf at h
  unfold netUdpGetSockAddrEx netUdpGetSockAddrEx.preferLoop
  dsimp only
  rw [if_pos h]

theorem netUdpGetSockAddrEx_other {p : AddrInfo} {servinfo : List AddrInfo} {ipv6First : Bool}
    (h : p.aiFamily ≠ preferAf ipv6First) (sa : SockAddrEx)
    : netUdpGetSockAddrEx (.ok (p :: servinfo)) ipv6First sa = ⟨OK, none, sa⟩ := by
  unfold preferAf at h
  unfold netUdpGetSockAddrEx netUdpGetSockAddrEx.preferLoop
  dsimp only
  rw [if_neg h]

theorem preferred_cons {p : AddrInfo} {servinfo : List AddrInfo} {ipv6First : Bool}
    (h : p.aiFamily = preferAf ipv6First)
    : preferred ipv6First (p :: servinfo) = some p := by
  simp [preferred, h]

def SockAddrEx.init : SockAddrEx where
  sa _ := 0
  saLen := 0

theorem SockAddrEx.not_holds_init (p : AddrInfo)
    : ¬ SockAddrEx.init.Holds p (sockAddrSize p.aiFamily) := by
  intro h
  have hlen : 0 = sockAddrSize p.aiFamily := h.1
  unfold sockAddrSize at hlen
  split at hlen
  all_goals simp [sizeofSockAddrIpV6, sizeofSockAddrIpV4] at hlen

theorem prefers_of_failed {res : GetAddrInfo} {ipv6First : Bool}
    (hrc : ∀ sa, (netUdpGetSockAddrEx res ipv6First sa).rc = ERR)
    (hempty : ∀ servinfo, res = .ok servinfo → servinfo = [])
    (h : (∃ text, res = .error text) ∨ res = .ok [])
    : Prefers res ipv6First where
  found servinfo sa hres hne := absurd (hempty servinfo hres) hne
  stored sa hok := by
    rw [hrc] at hok
    contradiction
  failed sa _ := ⟨hrc sa, h⟩

/--
The preference for a family is honoured if and only if the first entry of the list is of that family. The
loop that looks for such an entry is left with success at the first entry of the other family.
-/
theorem netUdpGetSockAddrEx_prefers_iff (res : GetAddrInfo) (ipv6First : Bool)
    : Prefers res ipv6First
      ↔ ∀ p servinfo, res = .ok (p :: servinfo) → p.aiFamily = preferAf ipv6First := by
  constructor
  . intro h p servinfo hres
    by_contra hne
    subst hres
    obtain ⟨-, q, -, hq⟩ := h.found (p :: servinfo) .init rfl (List.cons_ne_nil _ _)
    rw [netUdpGetSockAddrEx_other hne] at hq
    exact SockAddrEx.not_holds_init q hq
  . intro h
    match res with
    | .error text => exact prefers_of_failed (fun _ => rfl) (fun _ => by simp) (.inl ⟨text, rfl⟩)
    | .ok [] =>
      apply prefers_of_failed (fun _ => rfl) _ (.inr rfl)
      intro servinfo hl
      injection hl with hl
      exact hl.symm
    | .ok (p :: servinfo) =>
      have hp := h p servinfo rfl
      have hholds (sa : SockAddrEx) : (sa.copyFamily p).Holds p (sockAddrSize p.aiFamily) := by
        apply SockAddrEx.holds_copyFamily
        rw [hp]
        exact preferAf_cases ipv6First
      constructor
      . intro l sa hl _
        rw [netUdpGetSockAddrEx_prefer hp]
        injection hl with hl
        subst hl
        exact ⟨rfl, p, preferred_cons hp, hholds sa⟩
      . intro sa _
        rw [netUdpGetSockAddrEx_prefer hp]
        exact ⟨p :: servinfo, p, rfl, List.mem_cons_self, hholds sa⟩
      . intro sa hrc
        rw [netUdpGetSockAddrEx_prefer hp] at hrc
        contradiction

def AddrInfo.dns (af : Nat) : AddrInfo where
  aiFamily := af
  aiSocktype := 2
  aiProtocol := 17
  aiAddrlen := sockAddrSize af
  aiAddr := .ofList 0 [UInt8.ofNat af, 0, 0, 53]

/-- An IPv4 address behind an IPv6 address is not looked at. Nothing is stored, and success is reported. -/
theorem netUdpGetSockAddrEx_not_prefers
    : ¬ Prefers (.ok [.dns AF_INET6, .dns AF_INET]) false := by
  intro h
  obtain ⟨-, q, -, hq⟩ := h.found _ .init rfl (List.cons_ne_nil _ _)
  rw [netUdpGetSockAddrEx_other (by decide)] at hq
  exact SockAddrEx.not_holds_init q hq

end Xsocks
