import Xsocks.Protocol.Lemmas.Socks5

/-!
This module contains the grammar of the SOCKS5 address buffer and the proof that `socks5AddrParse` accepts
exactly the buffers that start with a word of it, whatever else is in memory.
-/

namespace Xsocks

variable {I : Inet}

/--
`ATYP`, `DST.ADDR` and `DST.PORT`, together with the type, the text of the host and the port they stand
for.
-/
inductive AddrBuf (I : Inet) : List Byte → Socks5Atyp → List Byte → Nat → Prop where
  | ipv4 (a : Bytes 4) (hi lo : Byte)
      : AddrBuf I (0x01 :: (a.val ++ [hi, lo])) .ipv4 (I.ntop .inet a).bytes (hi.toNat * 256 + lo.toNat)
  | ipv6 (a : Bytes 16) (hi lo : Byte)
      : AddrBuf I (0x04 :: (a.val ++ [hi, lo])) .ipv6 (I.ntop .inet6 a).bytes
          (hi.toNat * 256 + lo.toNat)
  | domain (l : Byte) (name : Bytes l.toNat) (hi lo : Byte)
      : AddrBuf I (0x03 :: l :: (name.val ++ [hi, lo])) .domain name.val (hi.toNat * 256 + lo.toNat)

namespace AddrBuf

variable {w host : List Byte} {atyp : Socks5Atyp} {port : Nat}

theorem length_pos (h : AddrBuf I w atyp host port) : 0 < w.length := by
  cases h <;> simp

theorem length_host_lt (h : AddrBuf I w atyp host port) (hI : I.Lawful)
    : host.length < HOSTNAME_MAX_LEN := by
  unfold HOSTNAME_MAX_LEN
  cases h with
  | ipv4 a hi lo =>
    have := hI.length_ntop .inet a
    omega
  | ipv6 a hi lo =>
    have := hI.length_ntop .inet6 a
    omega
  | domain l name hi lo =>
    rw [name.property]
    exact l.toNat_lt

end AddrBuf

section

variable {b : Mem Byte} {n : Int} {addr : Socks5Addr}

theorem read_port (b : Mem Byte) (off k : Nat)
    : b.read off (k + 2) = b.read off k ++ [b (off + k), b (off + k + 1)] := by
  rw [← Mem.read_append]
  rfl

theorem ofByte?_eq_some {x : Byte} {atyp : Socks5Atyp} (h : Socks5Atyp.ofByte? x = some atyp)
    : x = atyp.toByte := by
  unfold Socks5Atyp.ofByte? at h
  split at h
  . next hx =>
    rw [← Option.some.inj h]
    exact hx
  . split at h
    . next hx =>
      rw [← Option.some.inj h]
      exact hx
    . split at h
      . next hx =>
        rw [← Option.some.inj h]
        exact hx
      . contradiction

theorem ip_eq_some {atyp : Socks5Atyp} {f : Family} {hostLen : Nat}
    (h : socks5AddrParse.ip I b n hostLen atyp f = some addr)
    : addr = ⟨1 + (f.size + 2), atyp, (I.ntop f (bytesAt b 1 f.size)).bytes, ntohs b (1 + f.size)⟩ := by
  unfold socks5AddrParse.ip at h
  split at h
  . contradiction
  . unfold Inet.inetNtop at h
    split at h
    . contradiction
    . next host heq =>
      split at heq
      . rw [← Option.some.inj h, ← Option.some.inj heq]
      . contradiction

theorem addrBuf_of_socks5AddrParse {hostLen : Nat} (h : socks5AddrParse I b n hostLen = some addr)
    : AddrBuf I (b.read 0 addr.consumed) addr.atyp addr.host addr.port := by
  unfold socks5AddrParse at h
  split at h
  . next hbyte =>
    rw [ip_eq_some h, Nat.add_comm, Mem.read_succ, ofByte?_eq_some hbyte, read_port]
    exact .ipv4 (bytesAt b 1 4) (b 5) (b 6)
  . next hbyte =>
    rw [ip_eq_some h, Nat.add_comm, Mem.read_succ, ofByte?_eq_some hbyte, read_port]
    exact .ipv6 (bytesAt b 1 16) (b 17) (b 18)
  . next hbyte =>
    dsimp only at h
    split at h
    . contradiction
    . rw [← Option.some.inj h]
      dsimp only
      rw [Nat.add_comm 1, Mem.read_succ, Nat.add_assoc, Nat.add_comm 1, Mem.read_succ, ofByte?_eq_some hbyte,
        read_port]
      exact .domain (b 1) (bytesAt b 2 (b 1).toNat) _ _
  . contradiction

theorem read_port_inj {a : List Byte} {off : Nat} {hi lo : Byte}
    (h : b.read off (a ++ [hi, lo]).length = a ++ [hi, lo])
    : b.read off a.length = a ∧ b (off + a.length) = hi ∧ b (off + a.length + 1) = lo := by
  rw [List.length_append, List.length_cons, List.length_singleton, read_port] at h
  obtain ⟨ha, hport⟩ := List.append_inj h (Mem.length_read _ _ _)
  simp only [List.cons.injEq, and_true] at hport
  exact ⟨ha, hport⟩

theorem ip_of_read (hI : I.Lawful) {atyp : Socks5Atyp} {f : Family} (a : Bytes f.size) {hi lo : Byte}
    (h : b.read 1 (a.val ++ [hi, lo]).length = a.val ++ [hi, lo]) (hn : 1 + (f.size + 2) ≤ n)
    : socks5AddrParse.ip I b n HOSTNAME_MAX_LEN atyp f
        = some ⟨1 + (f.size + 2), atyp, (I.ntop f a).bytes, hi.toNat * 256 + lo.toNat⟩ := by
  obtain ⟨ha, hhi, hlo⟩ := read_port_inj h
  rw [a.property] at ha hhi hlo
  have hbytes : bytesAt b 1 f.size = a := Subtype.ext ha
  have hshort : (I.ntop f a).bytes.length < HOSTNAME_MAX_LEN :=
    Nat.lt_trans (hI.length_ntop f a) (by decide)
  unfold socks5AddrParse.ip
  rw [if_neg (by omega), Inet.inetNtop, hbytes, if_pos hshort]
  dsimp only
  rw [ntohs, hhi, hlo]

theorem socks5AddrParse_of_addrBuf (hI : I.Lawful) {w host : List Byte} {atyp : Socks5Atyp} {port : Nat}
    (hw : AddrBuf I w atyp host port) (hb : b.read 0 w.length = w) (hn : w.length ≤ n)
    : socks5AddrParse I b n HOSTNAME_MAX_LEN = some ⟨w.length, atyp, host, port⟩ := by
  unfold socks5AddrParse
  cases hw with
  | ipv4 a hi lo =>
    rw [List.length_cons, Mem.read_succ, List.cons.injEq] at hb
    have hlen : (0x01 :: (a.val ++ [hi, lo])).length = 7 := by simp [a.property]
    rw [hlen] at hn ⊢
    rw [hb.1]
    exact ip_of_read hI (f := .inet) a hb.2 hn
  | ipv6 a hi lo =>
    rw [List.length_cons, Mem.read_succ, List.cons.injEq] at hb
    have hlen : (0x04 :: (a.val ++ [hi, lo])).length = 19 := by simp [a.property]
    rw [hlen] at hn ⊢
    rw [hb.1]
    exact ip_of_read hI (f := .inet6) a hb.2 hn
  | domain l name hi lo =>
    rw [List.length_cons, List.length_cons, Mem.read_succ, Mem.read_succ, List.cons.injEq,
      List.cons.injEq] at hb
    obtain ⟨hatyp, hl, hb⟩ := hb
    obtain ⟨hname, hhi, hlo⟩ := read_port_inj hb
    rw [name.property] at hname hhi hlo
    have hlen : (0x03 :: l :: (name.val ++ [hi, lo])).length = 1 + (1 + l.toNat + 2) := by
      simp [name.property]
      omega
    rw [hlen] at hn ⊢
    rw [hatyp]
    have hofByte : Socks5Atyp.ofByte? 0x03 = some .domain := rfl
    rw [hofByte]
    dsimp only
    rw [hl, if_neg (by omega), ntohs, hhi, hlo, hname]

end

section

variable (b : Mem Byte) (n : Int) (out : Socks5Out)

def Socks5Addr.addrLen (addr : Socks5Addr) : Nat :=
  match addr.atyp with
  | .ipv4 => 4
  | .ipv6 => 16
  | .domain => addr.host.length

def Socks5Out.filled (out : Socks5Out) (addr : Socks5Addr) : Socks5Out where
  atyp := addr.atyp.toByte.toNat
  host := out.host.write 0 (addr.host ++ [0])
  hostLen := addr.addrLen
  port := addr.port

theorem ip_into_eq (atyp : Socks5Atyp) (f : Family) (hatyp : atyp = f.atyp)
    (hout : out.atyp = atyp.toByte.toNat)
    : match socks5AddrParse.ip I b n out.hostLen atyp f with
      | some addr => socks5AddrParseInto.ip I b n f out = ((addr.consumed : Int), out.filled addr)
      | none => (socks5AddrParseInto.ip I b n f out).1 = ERR := by
  unfold socks5AddrParse.ip socks5AddrParseInto.ip
  dsimp only
  by_cases hn : n - 1 < f.size + 2
  . rw [if_pos hn, if_pos hn]
  . rw [if_neg hn, if_neg hn]
    cases I.inetNtop f (bytesAt b 1 f.size) out.hostLen with
    | none => rfl
    | some host =>
      dsimp only
      subst hatyp
      rw [Prod.mk.injEq]
      refine ⟨by push_cast; rfl, ?_⟩
      cases f <;> simp [Socks5Out.filled, Socks5Addr.addrLen, Family.atyp, Family.size, hout]

theorem socks5AddrParseInto_eq
    : match socks5AddrParse I b n out.hostLen with
      | some addr => socks5AddrParseInto I b n out = ((addr.consumed : Int), out.filled addr)
      | none => (socks5AddrParseInto I b n out).1 = ERR := by
  unfold socks5AddrParse socks5AddrParseInto
  dsimp only
  cases hbyte : Socks5Atyp.ofByte? (b 0) with
  | none => rfl
  | some atyp =>
    have htoByte := ofByte?_eq_some hbyte
    cases atyp with
    | ipv4 =>
      exact ip_into_eq b n { out with atyp := (b 0).toNat } .ipv4 .inet rfl (congrArg UInt8.toNat htoByte)
    | ipv6 =>
      exact ip_into_eq b n { out with atyp := (b 0).toNat } .ipv6 .inet6 rfl (congrArg UInt8.toNat htoByte)
    | domain =>
      dsimp only
      by_cases hn : n - 1 < 1 + (b 1).toNat + 2
      . rw [if_pos hn, if_pos hn]
      . rw [if_neg hn, if_neg hn]
        dsimp only
        rw [Prod.mk.injEq]
        refine ⟨by push_cast; rfl, ?_⟩
        have hwrite := out.host.write_append (b.read 2 (b 1).toNat) [0]
        rw [Mem.length_read] at hwrite
        simp [Socks5Out.filled, Socks5Addr.addrLen, hwrite, htoByte]

end

/-- The first `n` bytes of `b` start with the word `w`, which stands for `atyp`, `host` and `port`. -/
structure StartsWith (I : Inet) (b : Mem Byte) (n : Nat) (w : List Byte) (atyp : Socks5Atyp)
    (host : List Byte) (port : Nat) : Prop where
  word : AddrBuf I w atyp host port
  isPrefix : w <+: b.read 0 n

namespace StartsWith

variable {b : Mem Byte} {n : Nat} {w host : List Byte} {atyp : Socks5Atyp} {port : Nat}

theorem length_le (h : StartsWith I b n w atyp host port) : w.length ≤ n := by
  have := h.isPrefix.length_le
  rw [Mem.length_read] at this
  exact this

theorem read (h : StartsWith I b n w atyp host port) : b.read 0 w.length = w := by
  have hle := h.length_le
  obtain ⟨t, ht⟩ := h.isPrefix
  have hsplit := Mem.read_append b 0 w.length (n - w.length)
  rw [Nat.add_sub_cancel' hle, ← ht] at hsplit
  exact List.append_inj_left hsplit (Mem.length_read _ _ _)

theorem of_read (hw : AddrBuf I w atyp host port) (hb : b.read 0 w.length = w) (hle : w.length ≤ n)
    : StartsWith I b n w atyp host port := by
  refine ⟨hw, ?_⟩
  have hsplit := Mem.read_append b 0 w.length (n - w.length)
  rw [Nat.add_sub_cancel' hle, hb] at hsplit
  exact ⟨_, hsplit⟩

theorem socks5AddrParse_eq (h : StartsWith I b n w atyp host port) (hI : I.Lawful)
    : socks5AddrParse I b n HOSTNAME_MAX_LEN = some ⟨w.length, atyp, host, port⟩ :=
  socks5AddrParse_of_addrBuf hI h.word h.read (Int.ofNat_le.mpr h.length_le)

theorem of_socks5AddrParse {addr : Socks5Addr} {hostLen : Nat}
    (h : socks5AddrParse I b n hostLen = some addr)
    : StartsWith I b n (b.read 0 addr.consumed) addr.atyp addr.host addr.port := by
  have hle := (socks5AddrParse_of_consumed_le h (Int.le_refl _)).1
  apply of_read (addrBuf_of_socks5AddrParse h)
  . rw [Mem.length_read]
  . rw [Mem.length_read]
    omega

end StartsWith

section

variable (b : Mem Byte) (n : Nat) (out : Socks5Out)

theorem socks5AddrParseInto_of_startsWith (hI : I.Lawful) (hlen : out.hostLen = HOSTNAME_MAX_LEN)
    {w host : List Byte} {atyp : Socks5Atyp} {port : Nat} (h : StartsWith I b n w atyp host port)
    : socks5AddrParseInto I b n out
        = ((w.length : Int), out.filled ⟨w.length, atyp, host, port⟩) := by
  have hinto := socks5AddrParseInto_eq (I := I) b n out
  rw [hlen, h.socks5AddrParse_eq hI] at hinto
  exact hinto

theorem socks5AddrParseInto_of_not_startsWith
    (h : ∀ w atyp host port, ¬StartsWith I b n w atyp host port)
    : (socks5AddrParseInto I b n out).1 = ERR := by
  have hinto := socks5AddrParseInto_eq (I := I) b n out
  split at hinto
  . next addr heq => exact (h _ _ _ _ (.of_socks5AddrParse heq)).elim
  . exact hinto

end

/--
A call of `socks5AddrParse` on a buffer of `n` bytes at the start of the memory `b`, for a caller whose
array has `HOSTNAME_MAX_LEN` bytes.
-/
structure AcceptsGrammar (I : Inet) (b : Mem Byte) (n : Nat) (out : Socks5Out) (res : Int × Socks5Out)
    : Prop where
  accept : ∀ k : Nat, 0 < k →
    (res.1 = k ↔ ∃ w atyp host port, StartsWith I b n w atyp host port ∧ w.length = k)
  reject : res.1 = ERR ↔ ¬∃ w atyp host port, StartsWith I b n w atyp host port
  outputs : ∀ w atyp host port, StartsWith I b n w atyp host port
    → w.length ≤ n ∧ res.2.atyp = atyp.toByte.toNat ∧ res.2.port = port
      ∧ res.2.host.read 0 (host.length + 1) = host ++ [0] ∧ host.length + 1 ≤ HOSTNAME_MAX_LEN
  bound : 0 < res.1 → ∀ i, HOSTNAME_MAX_LEN ≤ i → res.2.host i = out.host i
  word : 0 < res.1 → ∀ (b' : Mem Byte) (n' : Nat), (∀ i : Nat, i < res.1 → b' i = b i) → res.1 ≤ n'
    → socks5AddrParseInto I b' n' out = res
  stale : ∀ b' : Mem Byte, (∀ i, i < n → b' i = b i)
    → (socks5AddrParseInto I b' n out).1 = res.1 ∧ (0 < res.1 → socks5AddrParseInto I b' n out = res)

theorem socks5AddrParse_grammar (hI : I.Lawful) (b : Mem Byte) (n : Nat) (out : Socks5Out)
    (hlen : out.hostLen = HOSTNAME_MAX_LEN)
    : AcceptsGrammar I b n out (socks5AddrParseInto I b n out) := by
  have hstale : ∀ b' : Mem Byte, (∀ i, i < n → b' i = b i) → b'.read 0 n = b.read 0 n := by
    intro b' hb'
    apply Mem.read_congr
    intro i hi
    rw [Nat.zero_add]
    exact hb' i hi
  by_cases hex : ∃ w atyp host port, StartsWith I b n w atyp host port
  . obtain ⟨w, atyp, host, port, h⟩ := hex
    have hres := socks5AddrParseInto_of_startsWith b n out hI hlen h
    have hpos := h.word.length_pos
    constructor
    case accept =>
      intro k _
      constructor
      . intro hk
        rw [hres] at hk
        exact ⟨w, atyp, host, port, h, Int.ofNat_inj.mp hk⟩
      . intro ⟨w', atyp', host', port', h', hk⟩
        rw [socks5AddrParseInto_of_startsWith b n out hI hlen h', hk]
    case reject =>
      rw [hres]
      simp only [ERR, not_exists]
      constructor
      . intro hlt
        omega
      . intro hno
        exact (hno w atyp host port h).elim
    case outputs =>
      intro w' atyp' host' port' h'
      rw [socks5AddrParseInto_of_startsWith b n out hI hlen h']
      refine ⟨h'.length_le, rfl, rfl, ?_, h'.word.length_host_lt hI⟩
      have := Mem.read_write_self out.host 0 (host' ++ [0])
      rw [List.length_append, List.length_singleton] at this
      exact this
    case bound =>
      intro _ i hi
      rw [hres]
      have hshort := h.word.length_host_lt hI
      have hnone : (host ++ [0])[i]? = none := by
        apply List.getElem?_eq_none
        rw [List.length_append, List.length_singleton]
        omega
      simp [Socks5Out.filled, Mem.write, hnone]
    case word =>
      intro _ b' n' hb' hn'
      rw [hres] at hb' hn' ⊢
      apply socks5AddrParseInto_of_startsWith b' n' out hI hlen
      apply StartsWith.of_read h.word
      . rw [Mem.read_congr 0 w.length fun i hi => hb' (0 + i) (by omega)]
        exact h.read
      . exact Int.ofNat_le.mp hn'
    case stale =>
      intro b' hb'
      have h' : StartsWith I b' n w atyp host port := by
        refine ⟨h.word, ?_⟩
        rw [hstale b' hb']
        exact h.isPrefix
      have hres' := socks5AddrParseInto_of_startsWith b' n out hI hlen h'
      rw [hres, hres']
      exact ⟨rfl, fun _ => rfl⟩
  . have hno : ∀ b' : Mem Byte, (∀ i, i < n → b' i = b i) → (socks5AddrParseInto I b' n out).1 = ERR := by
      intro b' hb'
      apply socks5AddrParseInto_of_not_startsWith
      intro w atyp host port h
      apply hex
      refine ⟨w, atyp, host, port, h.word, ?_⟩
      rw [← hstale b' hb']
      exact h.isPrefix
    have hres := hno b fun _ _ => rfl
    have hneg : ¬0 < (socks5AddrParseInto I b n out).1 := by
      rw [hres]
      decide
    constructor
    case accept =>
      intro k _
      constructor
      . intro hk
        rw [hres, ERR] at hk
        omega
      . intro ⟨w, atyp, host, port, h, _⟩
        exact (hex ⟨w, atyp, host, port, h⟩).elim
    case reject => exact ⟨fun _ => hex, fun _ => hres⟩
    case outputs =>
      intro w atyp host port h
      exact (hex ⟨w, atyp, host, port, h⟩).elim
    case bound =>
      intro hpos
      contradiction
    case word =>
      intro hpos
      contradiction
    case stale =>
      intro b' hb'
      refine ⟨?_, fun hpos => absurd hpos hneg⟩
      rw [hno b' hb', hres]

theorem socks5AddrParse_grammar_name
    : let b : Mem Byte := .ofList 0 [3, 1, 97, 0, 80, 7, 7]
      let out : Socks5Out := ⟨0, .ofList 0 [], HOSTNAME_MAX_LEN, 0⟩
      AcceptsGrammar .text b 5 out (socks5AddrParseInto .text b 5 out)
        ∧ (socks5AddrParseInto .text b 5 out).1 = 5 :=
  ⟨socks5AddrParse_grammar Inet.text_lawful _ 5 _ rfl, by decide +kernel⟩

end Xsocks
