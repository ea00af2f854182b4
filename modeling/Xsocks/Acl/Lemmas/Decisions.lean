import Xsocks.Acl.Lemmas.Policy
import Xsocks.Protocol.Lemmas.Inet

/-!
This module contains the decisions of an access control list that was read from a file and changed afterwards.
-/

namespace Xsocks.Acl

open Wp IpSet

inductive Update where
  | addIp (ip : CString)
  | removeIp (ip : CString)

variable {Pcre : Type} (L : Library Pcre)

def Update.run (fuel : Nat) : Update → AclM Pcre Int
  | addIp ip => aclAddIp L fuel ip
  | removeIp ip => aclRemoveIp L fuel ip

def runUpdates (fuel : Nat) : List Update → AclM Pcre (List Int)
  | [] => return []
  | update :: updates => do
    let result ← update.run L fuel
    let results ← runUpdates fuel updates
    return result :: results

def Policy.update (pol : Policy) : Update → Policy
  | .addIp ip =>
    match L.corkIpInit ip with
    | some addr => pol.setAddresses .blackList (pol.addresses .blackList ∪ {addr})
    | none => pol
  | .removeIp ip =>
    match L.corkIpInit ip with
    | some addr => pol.setAddresses .blackList (pol.addresses .blackList \ {addr})
    | none => pol

section

variable {L} {acl : Acl Pcre} {pol : Policy} {n fuel : Nat} {name : ListName} {host : CString}

theorem implements_init (aclMode : AclMode)
    : Implements L 0 ⟨.init, .init, .init, aclMode⟩ (.empty aclMode) := by
  have hipset : ∀ name f, ((⟨.init, .init, .init, aclMode⟩ : Acl Pcre).list name).ipset f = ipsetInit := by
    intro name f
    cases name <;> cases f <;> rfl
  constructor
  case represents =>
    intro name f
    rw [hipset]
    refine ⟨∅, ?_⟩
    rw [Policy.empty, Set.empty_inter]
    exact represents_ipsetInit
  case largestIndex =>
    intro name f
    rw [hipset]
    exact Nat.zero_le _
  case rules =>
    intro name rule
    cases name <;> simp [list, Lists.init, Policy.empty]
  case aclMode => rfl

theorem wp_initAcl (acl : Acl Pcre) {file : List Byte} (hnul : 0 ∉ file) (hlargest : 129 * (texts file).length ≤ 2 ^ 31)
    (hfuel : 130 ≤ fuel)
    : wp (initAcl L fuel (some file))
        (fun ret acl' => ret = 0
          ∧ Implements L (129 * (texts file).length) acl' (.ofFile L acl.aclMode file))
        (fun _ _ => False) acl := by
  have hloop := wp_loop (implements_init (L := L) acl.aclMode) .blackList hnul
    (Nat.lt_succ_self file.length) (by omega) hfuel
  rw [initAcl, wp_bind, wp_modify, wp_bind]
  rw [Nat.zero_add] at hloop
  apply wp_mono hloop _ fun _ _ hF => hF
  intro _ acl' h'
  rw [wp_pure]
  exact ⟨rfl, h'⟩

theorem wp_update (h : Implements L n acl pol) (hlargest : n + 129 ≤ 2 ^ 31) (hfuel : 130 ≤ fuel) (update : Update)
    : wp (update.run L fuel) (fun _ acl' => Implements L (n + 129) acl' (pol.update L update))
        (fun _ _ => False) acl := by
  cases update with
  | addIp ip =>
    rw [Update.run, aclAddIp, Policy.update]
    split
    . next heq =>
      rw [wp_pure, heq]
      exact h.mono (Nat.le_add_right n 129)
    . next addr heq =>
      rw [wp_bind, heq]
      apply wp_mono (wp_onIpset_run h .blackList (.add (.v4 addr)) hlargest hfuel) _ fun _ _ hF => hF
      exact fun _ acl' h' => h'
    . next addr heq =>
      rw [wp_bind, heq]
      apply wp_mono (wp_onIpset_run h .blackList (.add (.v6 addr)) hlargest hfuel) _ fun _ _ hF => hF
      exact fun _ acl' h' => h'
  | removeIp ip =>
    rw [Update.run, aclRemoveIp, Policy.update]
    split
    . next heq =>
      rw [wp_pure, heq]
      exact h.mono (Nat.le_add_right n 129)
    . next addr heq =>
      rw [wp_bind, heq]
      apply wp_mono (wp_onIpset_run h .blackList (.remove (.v4 addr)) hlargest hfuel) _ fun _ _ hF => hF
      exact fun _ acl' h' => h'
    . next addr heq =>
      rw [wp_bind, heq]
      apply wp_mono (wp_onIpset_run h .blackList (.remove (.v6 addr)) hlargest hfuel) _ fun _ _ hF => hF
      exact fun _ acl' h' => h'

theorem wp_runUpdates (h : Implements L n acl pol) (updates : List Update)
    (hlargest : n + 129 * updates.length ≤ 2 ^ 31) (hfuel : 130 ≤ fuel)
    : wp (runUpdates L fuel updates)
        (fun _ acl' => Implements L (n + 129 * updates.length) acl' (updates.foldl (Policy.update L) pol))
        (fun _ _ => False) acl := by
  induction updates generalizing acl pol n with
  | nil =>
    rw [runUpdates, wp_pure]
    exact h
  | cons update updates ih =>
    rw [List.length_cons, Nat.mul_succ] at hlargest
    rw [runUpdates, wp_bind]
    apply wp_mono (wp_update h (by omega) hfuel update) _ fun _ _ hF => hF
    intro _ acl₁ h₁
    rw [wp_bind]
    apply wp_mono (ih h₁ (by omega)) _ fun _ _ hF => hF
    intro _ acl₂ h₂
    rw [wp_pure, List.length_cons, Nat.mul_succ]
    exact h₂.mono (by omega)

/-! # Decisions -/

theorem wp_containsIp (h : Implements L n acl pol) (hfuel : 130 ≤ fuel) (addr : CorkIp)
    : wp (containsIp fuel name addr) (fun result acl' => (result = true ↔ addr ∈ pol.addresses name) ∧ acl' = acl)
        (fun _ _ => False) acl := by
  have hcontains : containsIp fuel name addr
      = (onIpset name addr.version (ipsetContainsIp fuel addr) : AclM Pcre Bool) := by
    cases addr <;> rfl
  obtain ⟨live, hset⟩ := h.represents name addr.version
  rw [hcontains, wp_onIpset]
  apply wp_mono (wp_ipsetContainsIp hset hfuel) _ fun _ _ hF => hF
  rintro result _ ⟨hresult, rfl⟩
  rw [hresult, Set.mem_inter_iff]
  exact ⟨and_iff_left rfl, updList_setIpset_self _⟩

theorem lookupRule_isSome (h : Implements L n acl pol)
    : (lookupRule L (acl.list name).rules host).isSome = true
      ↔ ∃ p ∈ pol.patterns name, ∃ re, L.pcreCompile p = some re ∧ 0 ≤ L.pcreExec re host := by
  rw [lookupRule, List.find?_isSome]
  have hexec : ∀ p, (0 ≤ (newRule L p).exec L host)
      ↔ ∃ re, L.pcreCompile p = some re ∧ 0 ≤ L.pcreExec re host := by
    intro p
    rw [Rule.exec, newRule]
    dsimp only
    split
    . next re heq =>
      constructor
      . intro hle
        exact ⟨re, heq, hle⟩
      . rintro ⟨re', heq', hle⟩
        rw [heq] at heq'
        rw [Option.some.inj heq']
        exact hle
    . next heq =>
      rw [heq]
      constructor
      . intro hle
        exact absurd hle (by decide)
      . rintro ⟨re, hre, -⟩
        contradiction
  constructor
  . rintro ⟨rule, hrule, hle⟩
    obtain ⟨p, hp, rfl⟩ := (h.rules name rule).mp hrule
    exact ⟨p, hp, (hexec p).mp (of_decide_eq_true hle)⟩
  . rintro ⟨p, hp, hre⟩
    exact ⟨newRule L p, (h.rules name _).mpr ⟨p, hp, rfl⟩, decide_eq_true ((hexec p).mpr hre)⟩

theorem wp_aclMatchHost (h : Implements L n acl pol) (hfuel : 130 ≤ fuel) (host : CString)
    : wp (aclMatchHost L fuel host) (fun result acl' => result = pol.matchHost L host ∧ acl' = acl)
        (fun _ _ => False) acl := by
  rw [aclMatchHost]
  split
  . next hnone =>
    have hmatches : ∀ name, pol.Matches L name host ↔ (lookupRule L (acl.list name).rules host).isSome = true := by
      intro name
      rw [lookupRule_isSome h, Policy.Matches, hnone]
    rw [wp_bind, wp_get, Policy.matchHost, hmatches, hmatches]
    unfold list
    split
    . exact ⟨rfl, rfl⟩
    . split
      . exact ⟨rfl, rfl⟩
      . exact ⟨rfl, rfl⟩
  . next addr hsome =>
    have hmatches : ∀ name, pol.Matches L name host ↔ addr ∈ pol.addresses name := by
      intro name
      rw [Policy.Matches, hsome]
    rw [wp_bind]
    apply wp_mono (wp_containsIp h hfuel addr) _ fun _ _ hF => hF
    rintro black _ ⟨hblack, rfl⟩
    rw [Policy.matchHost, hmatches, hmatches, ← hblack]
    split
    . exact ⟨rfl, rfl⟩
    . rw [wp_bind]
      apply wp_mono (wp_containsIp h hfuel addr) _ fun _ _ hF => hF
      rintro white _ ⟨hwhite, rfl⟩
      rw [← hwhite]
      split
      . exact ⟨rfl, rfl⟩
      . exact ⟨rfl, rfl⟩

theorem wp_outboundBlockMatchHost (h : Implements L n acl pol) (hfuel : 130 ≤ fuel) (host : CString)
    : wp (outboundBlockMatchHost L fuel host)
        (fun result acl' => result = pol.blockMatchHost L host ∧ acl' = acl)
        (fun _ _ => False) acl := by
  rw [outboundBlockMatchHost]
  split
  . next hnone =>
    have hmatches : pol.Matches L .outboundBlockList host
        ↔ (lookupRule L (acl.list .outboundBlockList).rules host).isSome = true := by
      rw [lookupRule_isSome h, Policy.Matches, hnone]
    rw [wp_bind, wp_get, Policy.blockMatchHost, hmatches]
    unfold list
    split
    . exact ⟨rfl, rfl⟩
    . exact ⟨rfl, rfl⟩
  . next addr hsome =>
    have hmatches : pol.Matches L .outboundBlockList host ↔ addr ∈ pol.addresses .outboundBlockList := by
      rw [Policy.Matches, hsome]
    rw [wp_bind]
    apply wp_mono (wp_containsIp h hfuel addr) _ fun _ _ hF => hF
    rintro block _ ⟨hblock, rfl⟩
    rw [Policy.blockMatchHost, hmatches, ← hblock]
    split
    . exact ⟨rfl, rfl⟩
    . exact ⟨rfl, rfl⟩

/--
After a file has been read, and after any calls of `acl_add_ip` and `acl_remove_ip`, the decisions are those of
the policy of the file with these changes, and making them changes nothing.
-/
theorem decisions_of_file {file : List Byte} {updates : List Update} (hnul : 0 ∉ file)
    (hlargest : 129 * ((texts file).length + updates.length) ≤ 2 ^ 31) (hfuel : 130 ≤ fuel)
    : wp (initAcl L fuel (some file) >>= fun ret => runUpdates L fuel updates >>= fun _ => pure ret)
        (fun ret acl' => ret = 0 ∧ ∀ host,
          let pol := updates.foldl (Policy.update L) (.ofFile L acl.aclMode file)
          aclMatchHost L fuel host acl' = .ok (pol.matchHost L host) acl'
            ∧ outboundBlockMatchHost L fuel host acl' = .ok (pol.blockMatchHost L host) acl'
            ∧ getAclMode acl' = .ok (modeOf acl.aclMode (texts file)) acl')
        (fun _ _ => False) acl := by
  rw [Nat.mul_add] at hlargest
  rw [wp_bind]
  apply wp_mono (wp_initAcl acl hnul (by omega) hfuel) _ fun _ _ hF => hF
  rintro ret acl₁ ⟨hret, h₁⟩
  rw [wp_bind]
  apply wp_mono (wp_runUpdates h₁ updates (by omega) hfuel) _ fun _ _ hF => hF
  intro _ acl₂ h₂
  rw [wp_pure]
  refine ⟨hret, fun host => ?_⟩
  have hmode : ∀ (updates : List Update) (pol : Policy),
      (updates.foldl (Policy.update L) pol).aclMode = pol.aclMode := by
    intro updates
    induction updates with
    | nil => exact fun _ => rfl
    | cons update updates ih =>
      intro pol
      rw [List.foldl_cons, ih]
      cases update <;> (rw [Policy.update]; split <;> rfl)
  refine ⟨?_, ?_, ?_⟩
  . obtain ⟨result, acl', heq, rfl, rfl⟩ := exists_ok_of_wp (wp_aclMatchHost h₂ hfuel host)
    exact heq
  . obtain ⟨result, acl', heq, rfl, rfl⟩ := exists_ok_of_wp (wp_outboundBlockMatchHost h₂ hfuel host)
    exact heq
  . have := h₂.aclMode
    rw [hmode] at this
    change EStateM.Result.ok acl₂.aclMode acl₂ = _
    rw [this]
    rfl

/-- Addresses are written in full, and patterns have no special characters. -/
def Library.plain : Library CString where
  corkIpInit text := ((Inet.text.pton .inet text).map .v4).or ((Inet.text.pton .inet6 text).map .v6)
  pcreCompile pattern := some pattern
  pcreExec pattern subject := if pattern.bytes <:+: subject.bytes then 0 else -1

@[irreducible]
def loopbackFile : List Byte :=
  [91, 111, 117, 116, 98, 111, 117, 110, 100, 95, 98, 108, 111, 99, 107, 95, 108, 105, 115, 116, 93, 10,
   49, 50, 55, 46, 48, 46, 48, 46, 48, 47, 56, 32, 35, 32, 108, 111, 111, 112, 98, 97, 99, 107, 10]

theorem loopbackFile_noNul : 0 ∉ loopbackFile := by
  unfold loopbackFile
  decide

theorem length_texts_loopbackFile : (texts loopbackFile).length = 2 := by
  unfold loopbackFile
  decide +kernel

theorem decisions_of_file_loopback
    : ∃ (ret : Int) (acl : Acl CString), (initAcl Library.plain 130 (some loopbackFile) >>= fun ret =>
          runUpdates Library.plain 130 [.addIp localhost] >>= fun _ => pure ret) ⟨.init, .init, .init, .BLACK_LIST⟩
        = .ok ret acl
      ∧ ret = 0 ∧ ∀ host,
        let pol := [Update.addIp localhost].foldl (Policy.update Library.plain)
          (.ofFile Library.plain .BLACK_LIST loopbackFile)
        aclMatchHost Library.plain 130 host acl = .ok (pol.matchHost Library.plain host) acl
          ∧ outboundBlockMatchHost Library.plain 130 host acl = .ok (pol.blockMatchHost Library.plain host) acl
          ∧ getAclMode acl = .ok (modeOf .BLACK_LIST (texts loopbackFile)) acl := by
  have hlargest : 129 * ((texts loopbackFile).length + [Update.addIp localhost].length) ≤ 2 ^ 31 := by
    rw [length_texts_loopbackFile]
    decide
  exact exists_ok_of_wp (decisions_of_file loopbackFile_noNul hlargest (Nat.le_refl 130))

end

end Xsocks.Acl
