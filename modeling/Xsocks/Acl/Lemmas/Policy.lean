import Xsocks.Acl.Lemmas.File
import Xsocks.IpSet.Lemmas.Ops

/-!
This module contains the meaning of an access control list: the decisions are those of the policy that the
entries of its file describe, whatever the order of the entries in a list.
-/

namespace Xsocks.Acl

open Wp IpSet

@[ext]
structure Policy where
  addresses : ListName → Set CorkIp
  patterns : ListName → Set CString
  aclMode : AclMode

def block (addr : CorkIp) (cidr : Int) : Set CorkIp :=
  if cidr < 0 then {addr} else if cidr.toNat ≤ addr.bits then addr.network cidr.toNat else ∅

variable {Pcre : Type} (L : Library Pcre)

def entryAddresses (line : List Byte) : Set CorkIp :=
  {a | ∃ addr, L.corkIpInit (.ofBuf (parseAddrCidr line).1) = some addr ∧ a ∈ block addr (parseAddrCidr line).2}

def entryPatterns (line : List Byte) : Set CString :=
  {p | L.corkIpInit (.ofBuf (parseAddrCidr line).1) = none ∧ p = .ofBuf line}

def entries (name : ListName) : List (List Byte) → List (ListName × List Byte)
  | [] => []
  | line :: lines =>
    match directive? line with
    | some (.list name) => entries name lines
    | some (.mode _) => entries name lines
    | none => (name, line) :: entries name lines

def modeOf (aclMode : AclMode) : List (List Byte) → AclMode
  | [] => aclMode
  | line :: lines =>
    match directive? line with
    | some (.mode aclMode) => modeOf aclMode lines
    | _ => modeOf aclMode lines

namespace Policy

def extend (pol : Policy) (name : ListName) (lines : List (List Byte)) : Policy where
  addresses list := pol.addresses list ∪ {a | ∃ line, (list, line) ∈ entries name lines ∧ a ∈ entryAddresses L line}
  patterns list := pol.patterns list ∪ {p | ∃ line, (list, line) ∈ entries name lines ∧ p ∈ entryPatterns L line}
  aclMode := modeOf pol.aclMode lines

def empty (aclMode : AclMode) : Policy where
  addresses _ := ∅
  patterns _ := ∅
  aclMode := aclMode

/-- The policy of a file, where entries are for the black list until a directive says otherwise. -/
def ofFile (aclMode : AclMode) (file : List Byte) : Policy :=
  (empty aclMode).extend L .blackList (texts file)

def Matches (pol : Policy) (name : ListName) (host : CString) : Prop :=
  match L.corkIpInit host with
  | some addr => addr ∈ pol.addresses name
  | none => ∃ p ∈ pol.patterns name, ∃ re, L.pcreCompile p = some re ∧ 0 ≤ L.pcreExec re host

open Classical in
noncomputable def matchHost (pol : Policy) (host : CString) : Int :=
  if pol.Matches L .blackList host then 1 else if pol.Matches L .whiteList host then -1 else 0

open Classical in
noncomputable def blockMatchHost (pol : Policy) (host : CString) : Int :=
  if pol.Matches L .outboundBlockList host then 1 else 0

def setAddresses (pol : Policy) (name : ListName) (A : Set CorkIp) : Policy :=
  { pol with addresses := Function.update pol.addresses name A }

end Policy

structure Implements (n : Nat) (acl : Acl Pcre) (pol : Policy) : Prop where
  represents : ∀ name f, ∃ live, ((acl.list name).ipset f).Represents live (pol.addresses name ∩ {a | a.version = f})
  largestIndex : ∀ name f, ((acl.list name).ipset f).cache.largestIndex ≤ n
  rules : ∀ name rule, rule ∈ (acl.list name).rules ↔ ∃ p ∈ pol.patterns name, rule = newRule L p
  aclMode : acl.aclMode = pol.aclMode

section

variable {L} {acl : Acl Pcre} {pol : Policy} {n fuel : Nat} {name : ListName} {line : List Byte}

@[simp]
theorem list_updList (name list : ListName) (f : Lists Pcre → Lists Pcre)
    : (acl.updList name f).list list = if list = name then f (acl.list list) else acl.list list := by
  cases name <;> cases list <;> rfl

theorem updList_aclMode (name : ListName) (f : Lists Pcre → Lists Pcre)
    : (acl.updList name f).aclMode = acl.aclMode := by
  cases name <;> rfl

theorem ipset_setIpset (list : Lists Pcre) (f g : Family) (set : IpSet)
    : (list.setIpset f set).ipset g = if g = f then set else list.ipset g := by
  cases f <;> cases g <;> rfl

theorem rules_setIpset (list : Lists Pcre) (f : Family) (set : IpSet)
    : (list.setIpset f set).rules = list.rules := by
  cases f <;> rfl

theorem updList_setIpset_self (f : Family)
    : acl.updList name (fun list => list.setIpset f ((acl.list name).ipset f)) = acl := by
  cases name <;> cases f <;> rfl

theorem wp_onIpset {α : Type} {f : Family} {x : IpSet.SetM α} {Q : α → Acl Pcre → Prop}
    {E : IpSet.Fault → Acl Pcre → Prop}
    : wp (onIpset name f x) Q E acl
      ↔ wp x (fun r set => Q r (acl.updList name fun list => list.setIpset f set))
          (fun e set => E e (acl.updList name fun list => list.setIpset f set)) ((acl.list name).ipset f) := by
  unfold wp onIpset
  cases x ((acl.list name).ipset f) <;> rfl

end

/-! # Changes of the address sets -/

def opVersion : Op → Family
  | .add addr => addr.version
  | .addNetwork addr _ => addr.version
  | .remove addr => addr.version
  | .removeNetwork addr _ => addr.version

section

variable {L} {acl : Acl Pcre} {pol : Policy} {n fuel : Nat} {name : ListName} {line : List Byte}

theorem apply_inter (op : Op) (A : Set CorkIp) (f : Family)
    : op.apply A ∩ {a | a.version = f}
      = if f = opVersion op then op.apply (A ∩ {a | a.version = f}) else A ∩ {a | a.version = f} := by
  have hsingle : ∀ {a b : CorkIp}, b ∈ ({a} : Set CorkIp) → b.version = a.version := by
    intro a b hb
    rw [Set.mem_singleton_iff.mp hb]
  have hnetwork : ∀ {a b : CorkIp} {cidrPrefix : Nat}, b ∈ a.network cidrPrefix → b.version = a.version :=
    fun hb => hb.1
  -- A block of addresses, all of one family, is added or removed.
  have hadd : ∀ {N : Set CorkIp} {g : Family}, (∀ {b}, b ∈ N → b.version = g)
      → (A ∪ N) ∩ {a | a.version = f}
        = if f = g then (A ∩ {a | a.version = f}) ∪ N else A ∩ {a | a.version = f} := by
    intro N g hN
    ext b
    split
    . next heq =>
      constructor
      . rintro ⟨hA | hN, hf⟩
        . exact .inl ⟨hA, hf⟩
        . exact .inr hN
      . rintro (⟨hA, hf⟩ | hb)
        . exact ⟨.inl hA, hf⟩
        . exact ⟨.inr hb, (hN hb).trans heq.symm⟩
    . next hne =>
      constructor
      . rintro ⟨hA | hb, hf⟩
        . exact ⟨hA, hf⟩
        . exact absurd (Eq.trans (Eq.symm hf) (hN hb)) hne
      . rintro ⟨hA, hf⟩
        exact ⟨.inl hA, hf⟩
  have hremove : ∀ {N : Set CorkIp} {g : Family}, (∀ {b}, b ∈ N → b.version = g)
      → (A \ N) ∩ {a | a.version = f}
        = if f = g then (A ∩ {a | a.version = f}) \ N else A ∩ {a | a.version = f} := by
    intro N g hN
    ext b
    split
    . constructor
      . rintro ⟨⟨hA, hb⟩, hf⟩
        exact ⟨⟨hA, hf⟩, hb⟩
      . rintro ⟨⟨hA, hf⟩, hb⟩
        exact ⟨⟨hA, hb⟩, hf⟩
    . next hne =>
      constructor
      . rintro ⟨⟨hA, hb⟩, hf⟩
        exact ⟨hA, hf⟩
      . rintro ⟨hA, hf⟩
        exact ⟨⟨hA, fun hb => hne (Eq.trans (Eq.symm hf) (hN hb))⟩, hf⟩
  cases op with
  | add addr => exact hadd hsingle
  | remove addr => exact hremove hsingle
  | addNetwork addr cidrPrefix =>
    rw [Op.apply, Op.apply]
    by_cases hle : cidrPrefix ≤ addr.bits
    . simp only [if_pos hle]
      exact hadd hnetwork
    . simp only [if_neg hle, ite_self]
  | removeNetwork addr cidrPrefix =>
    rw [Op.apply, Op.apply]
    by_cases hle : cidrPrefix ≤ addr.bits
    . simp only [if_pos hle]
      exact hremove hnetwork
    . simp only [if_neg hle, ite_self]

theorem Implements.mono (h : Implements L n acl pol) {m : Nat} (hle : n ≤ m) : Implements L m acl pol :=
  ⟨h.represents, fun name f => (h.largestIndex name f).trans hle, h.rules, h.aclMode⟩

theorem wp_onIpset_run (h : Implements L n acl pol) (name : ListName) (op : Op)
    (hlargest : n + 129 ≤ 2 ^ 31) (hfuel : 130 ≤ fuel)
    : wp (onIpset name (opVersion op) (op.run fuel))
        (fun _ acl' => Implements L (n + 129) acl' (pol.setAddresses name (op.apply (pol.addresses name))))
        (fun _ _ => False) acl := by
  have hindex := h.largestIndex name (opVersion op)
  obtain ⟨live, hset⟩ := h.represents name (opVersion op)
  rw [wp_onIpset]
  apply wp_mono (wp_op_run hset op (by omega) hfuel) _ fun _ _ hF => hF
  rintro result set' ⟨-, hset', hlargest'⟩
  constructor
  case represents =>
    intro list f
    rw [list_updList, Policy.setAddresses]
    dsimp only
    by_cases hlist : list = name
    . rw [if_pos hlist, hlist, Function.update_self, apply_inter, ipset_setIpset]
      by_cases hf : f = opVersion op
      . rw [if_pos hf, if_pos hf, hf]
        exact hset'
      . rw [if_neg hf, if_neg hf]
        exact h.represents name f
    . rw [if_neg hlist, Function.update_of_ne hlist]
      exact h.represents list f
  case largestIndex =>
    intro list f
    have hold := h.largestIndex list f
    rw [list_updList]
    split
    . rw [ipset_setIpset]
      split
      . omega
      . omega
    . omega
  case rules =>
    intro list rule
    rw [list_updList]
    split
    . rw [rules_setIpset]
      exact h.rules list rule
    . exact h.rules list rule
  case aclMode =>
    rw [updList_aclMode]
    exact h.aclMode

theorem wp_addRule (h : Implements L n acl pol) (p : CString)
    : wp (addRule name (newRule L p))
        (fun _ acl' => Implements L n acl'
          { pol with patterns := Function.update pol.patterns name (pol.patterns name ∪ {p}) })
        (fun _ _ => False) acl := by
  rw [addRule, wp_modify]
  have hipset : ∀ list f, ((acl.updList name fun list => { list with rules := list.rules ++ [newRule L p] }).list
      list).ipset f = (acl.list list).ipset f := by
    intro list f
    rw [list_updList]
    split
    . cases f <;> rfl
    . rfl
  constructor
  case represents =>
    intro list f
    rw [hipset]
    exact h.represents list f
  case largestIndex =>
    intro list f
    rw [hipset]
    exact h.largestIndex list f
  case rules =>
    intro list rule
    rw [list_updList]
    dsimp only
    by_cases hlist : list = name
    . rw [if_pos hlist, hlist, List.mem_append, List.mem_singleton, h.rules name, Function.update_self]
      constructor
      . rintro (⟨q, hq, rfl⟩ | rfl)
        . exact ⟨q, .inl hq, rfl⟩
        . exact ⟨p, .inr rfl, rfl⟩
      . rintro ⟨q, hq | rfl, rfl⟩
        . exact .inl ⟨q, hq, rfl⟩
        . exact .inr rfl
    . rw [if_neg hlist, Function.update_of_ne hlist]
      exact h.rules list rule
  case aclMode =>
    rw [updList_aclMode]
    exact h.aclMode

/-! # The file -/

namespace Policy

def addEntry (L : Library Pcre) (pol : Policy) (name : ListName) (line : List Byte) : Policy :=
  { pol with
    addresses := Function.update pol.addresses name (pol.addresses name ∪ entryAddresses L line)
    patterns := Function.update pol.patterns name (pol.patterns name ∪ entryPatterns L line) }

theorem extend_nil : pol.extend L name [] = pol := by
  ext list a
  . simp [extend, entries]
  . simp [extend, entries]
  . rfl

theorem extend_list {lines : List (List Byte)} {next : ListName} (h : directive? line = some (.list next))
    : pol.extend L name (line :: lines) = pol.extend L next lines := by
  simp only [extend, entries, modeOf, h]

theorem extend_mode {lines : List (List Byte)} {aclMode : AclMode} (h : directive? line = some (.mode aclMode))
    : pol.extend L name (line :: lines) = { pol with aclMode := aclMode }.extend L name lines := by
  simp only [extend, entries, modeOf, h]

theorem union_entries {α : Type} {S T : ListName → Set α} {E : List Byte → Set α} {lines : List (List Byte)}
    (h : directive? line = none) (hT : T = Function.update S name (S name ∪ E line)) (list : ListName)
    : S list ∪ {a | ∃ l, (list, l) ∈ entries name (line :: lines) ∧ a ∈ E l}
      = T list ∪ {a | ∃ l, (list, l) ∈ entries name lines ∧ a ∈ E l} := by
  subst hT
  rw [entries, h]
  ext a
  dsimp only
  by_cases hlist : list = name
  . subst hlist
    rw [Function.update_self]
    constructor
    . rintro (hS | ⟨l, hl, ha⟩)
      . exact .inl (.inl hS)
      . rcases List.mem_cons.mp hl with heq | hl
        . rw [(Prod.mk.inj heq).2] at ha
          exact .inl (.inr ha)
        . exact .inr ⟨l, hl, ha⟩
    . rintro ((hS | ha) | ⟨l, hl, ha⟩)
      . exact .inl hS
      . exact .inr ⟨line, List.mem_cons_self, ha⟩
      . exact .inr ⟨l, List.mem_cons_of_mem _ hl, ha⟩
  . rw [Function.update_of_ne hlist]
    constructor
    . rintro (hS | ⟨l, hl, ha⟩)
      . exact .inl hS
      . rcases List.mem_cons.mp hl with heq | hl
        . exact absurd (Prod.mk.inj heq).1 hlist
        . exact .inr ⟨l, hl, ha⟩
    . rintro (hS | ⟨l, hl, ha⟩)
      . exact .inl hS
      . exact .inr ⟨l, List.mem_cons_of_mem _ hl, ha⟩

theorem extend_entry {lines : List (List Byte)} (h : directive? line = none)
    : pol.extend L name (line :: lines) = (pol.addEntry L name line).extend L name lines := by
  unfold extend
  congr 1
  . funext list
    exact union_entries h rfl list
  . funext list
    exact union_entries h rfl list
  . rw [modeOf, h]
    rfl

end Policy

theorem wp_addEntry (h : Implements L n acl pol) (hlargest : n + 129 ≤ 2 ^ 31) (hfuel : 130 ≤ fuel)
    : wp (addEntry L fuel name line) (fun _ acl' => Implements L (n + 129) acl' (pol.addEntry L name line))
        (fun _ _ => False) acl := by
  have haddress : ∀ {addr : CorkIp}, L.corkIpInit (.ofBuf (parseAddrCidr line).1) = some addr
      → pol.addEntry L name line
        = pol.setAddresses name (pol.addresses name ∪ block addr (parseAddrCidr line).2) := by
    intro addr haddr
    have hblock : entryAddresses L line = block addr (parseAddrCidr line).2 := by
      ext a
      rw [entryAddresses, Set.mem_ofPred_eq, haddr]
      simp
    have hnone : entryPatterns L line = ∅ := by
      ext p
      rw [entryPatterns, Set.mem_ofPred_eq, haddr]
      simp
    rw [Policy.addEntry, hblock, hnone, Set.union_empty, Function.update_eq_self, Policy.setAddresses]
  -- The calls of `ipset_ipvX_add_network` and `ipset_ipvX_add` as one operation.
  have hop : ∀ (addr : CorkIp) (cidr : Int), ∃ op : Op, opVersion op = addr.version
      ∧ op.run fuel = (if cidr ≥ 0 then ipsetIpAddNetwork fuel addr cidr.toNat else ipsetIpAdd fuel addr)
      ∧ ∀ A, op.apply A = A ∪ block addr cidr := by
    intro addr cidr
    by_cases hcidr : cidr ≥ 0
    . refine ⟨.addNetwork addr cidr.toNat, rfl, by rw [if_pos hcidr]; rfl, fun A => ?_⟩
      rw [Op.apply, block, if_neg (Int.not_lt.mpr hcidr)]
      split
      . rfl
      . rw [Set.union_empty]
    . refine ⟨.add addr, rfl, by rw [if_neg hcidr]; rfl, fun A => ?_⟩
      rw [Op.apply, block, if_pos (Int.not_le.mp hcidr)]
  rw [addEntry]
  dsimp only
  split
  . next ip haddr =>
    obtain ⟨op, hversion, hrun, happly⟩ := hop (.v4 ip) (parseAddrCidr line).2
    have hwp := wp_onIpset_run h name op hlargest hfuel
    rw [hversion, hrun, happly] at hwp
    rw [haddress haddr, wp_bind]
    exact hwp
  . next ip haddr =>
    obtain ⟨op, hversion, hrun, happly⟩ := hop (.v6 ip) (parseAddrCidr line).2
    have hwp := wp_onIpset_run h name op hlargest hfuel
    rw [hversion, hrun, happly] at hwp
    rw [haddress haddr, wp_bind]
    exact hwp
  . next hnone =>
    have haddresses : entryAddresses L line = ∅ := by
      ext a
      rw [entryAddresses, Set.mem_ofPred_eq, hnone]
      simp
    have hpatterns : entryPatterns L line = {.ofBuf line} := by
      ext p
      rw [entryPatterns, Set.mem_ofPred_eq, hnone]
      simp
    apply wp_mono (wp_addRule h _) _ fun _ _ hF => hF
    intro _ acl' h'
    rw [Policy.addEntry, haddresses, hpatterns, Set.union_empty, Function.update_eq_self]
    exact h'.mono (Nat.le_add_right n 129)

theorem wp_loop (h : Implements L n acl pol) (name : ListName) {steps : Nat} {file : List Byte} (hnul : 0 ∉ file)
    (hsteps : file.length < steps) (hlargest : n + 129 * (texts file).length ≤ 2 ^ 31) (hfuel : 130 ≤ fuel)
    : wp (initAcl.loop L fuel steps name file)
        (fun _ acl' => Implements L (n + 129 * (texts file).length) acl' (pol.extend L name (texts file)))
        (fun _ _ => False) acl := by
  induction steps generalizing acl pol n name file with
  | zero => exact absurd hsteps (Nat.not_lt_zero _)
  | succ steps ih =>
    rw [initAcl.loop]
    by_cases hnil : file = []
    . subst hnil
      have heof : fgets 256 [] = none := rfl
      rw [heof, wp_pure, texts_nil, Policy.extend_nil]
      exact h
    . obtain ⟨buf, rest, k, hfgets, hdiscard, htexts, hlt, hnul'⟩ := fgets_line hnil hnul
      rw [hfgets]
      dsimp only
      rw [hdiscard]
      dsimp only
      by_cases hlong : k = 0
      . rw [if_neg (not_not_intro hlong)]
        by_cases hblank : lineText buf = []
        . rw [if_neg (fun hand => hand.2 hblank), List.nil_append] at htexts
          rw [htexts] at hlargest ⊢
          rw [if_pos hblank]
          exact ih h _ hnul' (by omega) hlargest
        . rw [if_pos ⟨hlong, hblank⟩, List.singleton_append] at htexts
          rw [htexts, List.length_cons, Nat.mul_succ] at hlargest ⊢
          rw [if_neg hblank]
          split
          . next next hdirective =>
            rw [Policy.extend_list hdirective]
            apply wp_mono (ih h _ hnul' (by omega) (by omega)) _ fun _ _ hF => hF
            exact fun _ acl' h' => h'.mono (by omega)
          . next aclMode hdirective =>
            rw [Policy.extend_mode hdirective, wp_bind, wp_modify]
            have h' : Implements L n { acl with aclMode := aclMode } { pol with aclMode := aclMode } := by
              refine ⟨fun list => ?_, fun list => ?_, fun list => ?_, rfl⟩
              . cases list
                . exact h.represents .whiteList
                . exact h.represents .blackList
                . exact h.represents .outboundBlockList
              . cases list
                . exact h.largestIndex .whiteList
                . exact h.largestIndex .blackList
                . exact h.largestIndex .outboundBlockList
              . cases list
                . exact h.rules .whiteList
                . exact h.rules .blackList
                . exact h.rules .outboundBlockList
            apply wp_mono (ih h' _ hnul' (by omega) (by omega)) _ fun _ _ hF => hF
            exact fun _ acl' h' => h'.mono (by omega)
          . next hdirective =>
            rw [Policy.extend_entry hdirective, wp_bind]
            apply wp_mono (wp_addEntry h (by omega) hfuel) _ fun _ _ hF => hF
            intro _ acl₁ h₁
            apply wp_mono (ih h₁ _ hnul' (by omega) (by omega)) _ fun _ _ hF => hF
            exact fun _ acl' h' => h'.mono (by omega)
      . rw [if_neg (fun hand => hlong hand.1), List.nil_append] at htexts
        rw [htexts] at hlargest ⊢
        rw [if_pos hlong]
        exact ih h _ hnul' (by omega) hlargest

end

end Xsocks.Acl
