import Xsocks.Core.Impl.Drain
import Xsocks.Core.Net

/-!
This module contains what `netTcpRead` and `netTcpWrite` make of any sequence of results of the `read` and
`write` calls.
-/

namespace Xsocks

open Drain

def readMoved (read : Nat → (n : Nat) → Except Errno {bs : List Byte // bs.length ≤ n}) (m _ n : Nat)
    : Except Errno (List Byte) :=
  (read m n).map Subtype.val

def writeMoved (write : Nat → (n : Nat) → Except Errno {k : Nat // k ≤ n}) (buf : Mem Byte) (m total n : Nat)
    : Except Errno (List Byte) :=
  (write m n).map fun k => buf.read total k.val

theorem tracks_sysRead (read : Nat → (n : Nat) → Except Errno {bs : List Byte // bs.length ≤ n})
    (buf : Mem Byte)
    : Tracks (sysRead read) (readMoved read) (fun buf' data => buf' = buf.write 0 data) where
  ok {s m data total n k s'} heq htotal hs := by
    unfold sysRead at heq
    unfold readMoved
    split at heq
    . simp at heq
    . next bs hread =>
      rw [hread]
      simp only [Prod.mk.injEq, Except.ok.injEq] at heq
      refine ⟨bs.val, rfl, congrArg Subtype.val heq.1, ?_⟩
      rw [← heq.2, hs, htotal, Mem.write_append]
  error {s m data total n e s'} heq hs := by
    unfold sysRead at heq
    unfold readMoved
    split at heq
    . next errno hread =>
      rw [hread]
      simp only [Prod.mk.injEq, Except.error.injEq] at heq
      rw [heq.1, ← heq.2]
      exact ⟨rfl, hs⟩
    . simp at heq

theorem tracks_sysWrite (write : Nat → (n : Nat) → Except Errno {k : Nat // k ≤ n}) (buf : Mem Byte)
    : Tracks (sysWrite write buf) (writeMoved write buf)
        (fun sent data => sent = data ∧ data = buf.read 0 data.length) where
  ok {s m data total n k s'} heq htotal hs := by
    unfold sysWrite at heq
    unfold writeMoved
    split at heq
    . simp at heq
    . next k' hwrite =>
      rw [hwrite]
      simp only [Prod.mk.injEq, Except.ok.injEq] at heq
      obtain ⟨rfl, rfl⟩ := heq
      refine ⟨buf.read total k', rfl, Mem.length_read _ _ _, ?_, ?_⟩
      . rw [hs.1]
      . rw [List.length_append, Mem.length_read, ← Mem.read_append, ← hs.2, Nat.zero_add, htotal]
  error {s m data total n e s'} heq hs := by
    unfold sysWrite at heq
    unfold writeMoved
    split at heq
    . next errno hwrite =>
      rw [hwrite]
      simp only [Prod.mk.injEq, Except.error.injEq] at heq
      rw [heq.1, ← heq.2]
      exact ⟨rfl, hs⟩
    . simp at heq

/-- What `netTcpRead` does, where `data` is what the first `m` calls have read and they are all that did. -/
structure ReadDrained (read : Nat → (n : Nat) → Except Errno {bs : List Byte // bs.length ≤ n}) (vars : NetVars)
    (buflen : Int) (r : NetResult) (m : Nat) (data : List Byte)
    : Prop where
  leading : Leading (readMoved read) buflen.toNat m data
  ended : ∃ last, Ended (readMoved read) buflen.toNat m data r.calls last
  calls_le : m ≤ buflen
  length_le : data.length ≤ buflen
  buf : r.vars.buf = vars.buf.write 0 data
  read_buf : r.vars.buf.read 0 data.length = data
  some_data : data ≠ [] → r.ret = data.length ∧ r.vars.closed = vars.closed.map fun _ => false
  closed : data = [] → ∀ c, vars.closed = some c
    → ∃ c', r.vars.closed = some c' ∧ (c' = true ↔ read 0 buflen.toNat = .ok ⟨[], Nat.zero_le _⟩)
  err : data = [] → (r.ret = ERR ↔ ∃ errno, read 0 buflen.toNat = .error errno ∧ errno ≠ .EAGAIN)
    ∧ (r.ret ≠ ERR → r.ret = 0)

/-- The same for `netTcpWrite`, where `sent` is what the calls have transferred. -/
structure WriteDrained (write : Nat → (n : Nat) → Except Errno {k : Nat // k ≤ n}) (vars : NetVars)
    (buflen : Int) (r : NetResult) (sent : List Byte) (m : Nat) (data : List Byte)
    : Prop where
  leading : Leading (writeMoved write vars.buf) buflen.toNat m data
  ended : ∃ last, Ended (writeMoved write vars.buf) buflen.toNat m data r.calls last
  calls_le : m ≤ buflen
  length_le : data.length ≤ buflen
  sent_eq : sent = data
  read_buf : vars.buf.read 0 data.length = data
  buf : r.vars.buf = vars.buf
  some_data : data ≠ [] → r.ret = data.length
  err : data = [] → (r.ret = ERR ↔ ∃ errno, write 0 buflen.toNat = .error errno ∧ errno ≠ .EAGAIN)
    ∧ (r.ret ≠ ERR → r.ret = 0)

theorem readMoved_le {read : Nat → (n : Nat) → Except Errno {bs : List Byte // bs.length ≤ n}} (m total n : Nat)
    (xs : List Byte) (h : readMoved read m total n = .ok xs)
    : xs.length ≤ n := by
  unfold readMoved at h
  cases hread : read m n with
  | error errno =>
    rw [hread] at h
    contradiction
  | ok bs =>
    rw [hread] at h
    rw [← Except.ok.inj h]
    exact bs.property

theorem writeMoved_le {write : Nat → (n : Nat) → Except Errno {k : Nat // k ≤ n}} {buf : Mem Byte}
    (m total n : Nat) (xs : List Byte) (h : writeMoved write buf m total n = .ok xs)
    : xs.length ≤ n := by
  unfold writeMoved at h
  cases hwrite : write m n with
  | error errno =>
    rw [hwrite] at h
    contradiction
  | ok k =>
    rw [hwrite] at h
    rw [← Except.ok.inj h, Mem.length_read]
    exact k.property

theorem readMoved_nil_iff {read : Nat → (n : Nat) → Except Errno {bs : List Byte // bs.length ≤ n}} {m total n : Nat}
    : readMoved read m total n = .ok [] ↔ read m n = .ok ⟨[], Nat.zero_le _⟩ := by
  unfold readMoved
  cases read m n with
  | error errno => simp [Except.map]
  | ok bs => simp [Except.map, Subtype.ext_iff]

theorem readMoved_error_iff {read : Nat → (n : Nat) → Except Errno {bs : List Byte // bs.length ≤ n}}
    {m total n : Nat} {errno : Errno}
    : readMoved read m total n = .error errno ↔ read m n = .error errno := by
  unfold readMoved
  cases read m n <;> simp [Except.map]

theorem writeMoved_error_iff {write : Nat → (n : Nat) → Except Errno {k : Nat // k ≤ n}} {buf : Mem Byte}
    {m total n : Nat} {errno : Errno}
    : writeMoved write buf m total n = .error errno ↔ write m n = .error errno := by
  unfold writeMoved
  cases write m n <;> simp [Except.map]

theorem ended_nil {moved : (m total n : Nat) → Except Errno (List Byte)} {len m calls : Nat}
    {last : Except Errno Nat} (hlen : 0 < len) (hleading : Leading moved len m [])
    (h : Ended moved len m [] calls last)
    : (moved 0 0 len = .ok [] ∧ last = .ok 0) ∨ ∃ errno, moved 0 0 len = .error errno ∧ last = .error errno := by
  have hm : m = 0 := Nat.le_zero.mp hleading.le_length
  subst hm
  cases h with
  | full hle => exact absurd hle (by simpa using Nat.pos_iff_ne_zero.mp hlen)
  | empty hlt heq => exact .inl ⟨heq, rfl⟩
  | error hlt heq => exact .inr ⟨_, heq, rfl⟩

inductive ReadEnd (read : Nat → (n : Nat) → Except Errno {bs : List Byte // bs.length ≤ n}) (vars : NetVars)
    (buflen : Int)
    : NetResult → List Byte → Prop where
  | data {data : List Byte} {calls : Nat} (ne : data ≠ [])
      : ReadEnd read vars buflen
          ⟨data.length, ⟨vars.err, vars.buf.write 0 data, vars.closed.map fun _ => false⟩, calls⟩ data
  | closed {calls : Nat} (eq : read 0 buflen.toNat = .ok ⟨[], Nat.zero_le _⟩)
      : ReadEnd read vars buflen ⟨0, ⟨vars.err, vars.buf, vars.closed.map fun _ => true⟩, calls⟩ []
  | failed {calls : Nat} {errno : Errno} (eq : read 0 buflen.toNat = .error errno) (ne : errno ≠ .EAGAIN)
      : ReadEnd read vars buflen ⟨ERR, ⟨some errno, vars.buf, vars.closed.map fun _ => false⟩, calls⟩ []
  | again {calls : Nat} (eq : read 0 buflen.toNat = .error .EAGAIN)
      : ReadEnd read vars buflen ⟨0, ⟨vars.err, vars.buf, vars.closed.map fun _ => false⟩, calls⟩ []

inductive WriteEnd (write : Nat → (n : Nat) → Except Errno {k : Nat // k ≤ n}) (vars : NetVars) (buflen : Int)
    : NetResult → List Byte → Prop where
  | data {data : List Byte} {calls : Nat} (ne : data ≠ [])
      : WriteEnd write vars buflen ⟨data.length, vars, calls⟩ data
  | nothing {calls : Nat} (ne : ∀ errno, write 0 buflen.toNat = .error errno → errno = .EAGAIN)
      : WriteEnd write vars buflen ⟨0, vars, calls⟩ []
  | failed {calls : Nat} {errno : Errno} (eq : write 0 buflen.toNat = .error errno) (ne : errno ≠ .EAGAIN)
      : WriteEnd write vars buflen ⟨ERR, { vars with err := some errno }, calls⟩ []

section

variable (read : Nat → (n : Nat) → Except Errno {bs : List Byte // bs.length ≤ n})
  (write : Nat → (n : Nat) → Except Errno {k : Nat // k ≤ n}) (vars : NetVars) {buflen : Int}

theorem netTcpReadInto_end (h : 1 ≤ buflen)
    : ∃ m data last, Leading (readMoved read) buflen.toNat m data
        ∧ Ended (readMoved read) buflen.toNat m data (netTcpReadInto read vars buflen).calls last
        ∧ ReadEnd read vars buflen (netTcpReadInto read vars buflen) data := by
  obtain ⟨v, m, data, hv, hleading, hbuf, htotal, hended⟩ := (tracks_sysRead read vars.buf).loop
    buflen.toNat (Mem.write_nil vars.buf 0).symm (.ok 0)
  refine ⟨m, data, v.last, hleading, ?_⟩
  unfold netTcpReadInto
  dsimp only
  rw [hv]
  by_cases hdata : data = []
  . subst hdata
    have hzero : v.total = 0 := htotal
    have hended' := hended
    rw [Mem.write_nil] at hbuf
    rw [if_pos hzero]
    rcases ended_nil (by omega) hleading hended with ⟨hmoved, hlast⟩ | ⟨errno, hmoved, hlast⟩
    . rw [hlast] at hended' ⊢
      rw [hzero, hbuf, Option.map_map]
      exact ⟨hended', .closed (readMoved_nil_iff.mp hmoved)⟩
    . rw [hlast] at hended' ⊢
      dsimp only
      rw [hzero, hbuf]
      by_cases hagain : errno = .EAGAIN
      . rw [if_neg (by simpa using hagain)]
        subst hagain
        exact ⟨hended', .again (readMoved_error_iff.mp hmoved)⟩
      . rw [if_pos hagain]
        exact ⟨hended', .failed (readMoved_error_iff.mp hmoved) hagain⟩
  . rw [if_neg (by simpa [htotal] using hdata), htotal, hbuf]
    exact ⟨hended, .data hdata⟩

theorem netTcpReadInto_drained (h : 1 ≤ buflen)
    : ∃ m data, ReadDrained read vars buflen (netTcpReadInto read vars buflen) m data := by
  obtain ⟨m, data, last, hleading, hended, hend⟩ := netTcpReadInto_end read vars h
  have hle := hleading.length_le readMoved_le
  have hm := hleading.le_length
  generalize netTcpReadInto read vars buflen = r at hended hend
  refine ⟨m, data, hleading, ⟨last, hended⟩, by omega, by omega, ?_, ?_, ?_, ?_, ?_⟩
  case refine_1 => cases hend <;> simp
  case refine_2 => cases hend <;> simp
  case refine_3 => cases hend <;> simp
  case refine_4 =>
    intro hdata c hc
    cases hend with
    | data hne => exact absurd hdata hne
    | closed heq => simp [hc, heq]
    | failed heq hne => simp [hc, heq]
    | again heq => simp [hc, heq]
  case refine_5 =>
    intro hdata
    cases hend with
    | data hne => exact absurd hdata hne
    | closed heq => simp [heq, ERR]
    | failed heq hne => simp [heq, hne]
    | again heq => simp [heq, ERR]

theorem netTcpWriteFrom_end (h : 1 ≤ buflen)
    : ∃ m data last, Leading (writeMoved write vars.buf) buflen.toNat m data
        ∧ Ended (writeMoved write vars.buf) buflen.toNat m data (netTcpWriteFrom write vars buflen).1.calls last
        ∧ (netTcpWriteFrom write vars buflen).2 = data ∧ vars.buf.read 0 data.length = data
        ∧ WriteEnd write vars buflen (netTcpWriteFrom write vars buflen).1 data := by
  obtain ⟨v, m, data, hv, hleading, ⟨hsent, hbuf⟩, htotal, hended⟩ := (tracks_sysWrite write vars.buf).loop
    buflen.toNat ⟨rfl, rfl⟩ (.ok 0)
  refine ⟨m, data, v.last, hleading, ?_⟩
  unfold netTcpWriteFrom
  dsimp only
  rw [hv, htotal, hsent]
  by_cases hdata : data = []
  . subst hdata
    have hended' := hended
    rcases ended_nil (by omega) hleading hended with ⟨hmoved, hlast⟩ | ⟨errno, hmoved, hlast⟩
    . rw [hlast] at hended' ⊢
      refine ⟨hended', rfl, rfl, .nothing ?_⟩
      intro errno herrno
      rw [writeMoved_error_iff.mpr herrno] at hmoved
      contradiction
    . rw [hlast] at hended' ⊢
      have hwrite := writeMoved_error_iff.mp hmoved
      by_cases hagain : errno = .EAGAIN
      . rw [hagain] at hended' hwrite ⊢
        refine ⟨hended', rfl, rfl, .nothing ?_⟩
        intro errno' herrno'
        rw [hwrite] at herrno'
        exact (Except.error.inj herrno').symm
      . dsimp only
        rw [if_pos ⟨List.length_nil, hagain⟩]
        exact ⟨hended', rfl, rfl, .failed hwrite hagain⟩
  . have hpos : data.length ≠ 0 := by simpa using hdata
    split
    . rw [if_neg (fun hand => hpos hand.1)]
      exact ⟨hended, rfl, hbuf.symm, .data hdata⟩
    . exact ⟨hended, rfl, hbuf.symm, .data hdata⟩

theorem netTcpWriteFrom_drained (h : 1 ≤ buflen)
    : ∃ m data, WriteDrained write vars buflen (netTcpWriteFrom write vars buflen).1
        (netTcpWriteFrom write vars buflen).2 m data := by
  obtain ⟨m, data, last, hleading, hended, hsent, hbuf, hend⟩ := netTcpWriteFrom_end write vars h
  have hle := hleading.length_le writeMoved_le
  have hm := hleading.le_length
  generalize netTcpWriteFrom write vars buflen = r at hended hsent hend
  refine ⟨m, data, hleading, ⟨last, hended⟩, by omega, by omega, hsent, hbuf, ?_, ?_, ?_⟩
  case refine_1 =>
    generalize r.1 = r at hend
    cases hend <;> rfl
  case refine_2 =>
    intro hdata
    generalize r.1 = r at hend
    cases hend with
    | data hne => rfl
    | nothing hne => exact absurd rfl hdata
    | failed heq hne => exact absurd rfl hdata
  case refine_3 =>
    intro hdata
    generalize r.1 = r at hend
    cases hend with
    | data hne => exact absurd hdata hne
    | nothing hne =>
      refine ⟨⟨fun heq => (nomatch heq), ?_⟩, fun _ => rfl⟩
      intro ⟨errno, heq, hagain⟩
      exact absurd (hne errno heq) hagain
    | failed heq hne => simp [heq, hne]

/--
For every sequence of results the calls that move something come first, and the one after them ends the
loop unless the buffer is full. What it has returned only matters if nothing has been moved.
-/
theorem netTcp_drains (h : 1 ≤ buflen)
    : (∃ m data, ReadDrained read vars buflen (netTcpReadInto read vars buflen) m data)
        ∧ ∃ m data, WriteDrained write vars buflen (netTcpWriteFrom write vars buflen).1
            (netTcpWriteFrom write vars buflen).2 m data :=
  ⟨netTcpReadInto_drained read vars h, netTcpWriteFrom_drained write vars h⟩

end

theorem netTcp_drains_four
    : let read (m n : Nat) : Except Errno {bs : List Byte // bs.length ≤ n} :=
        if m = 0 then .ok ⟨[1, 2].take n, List.length_take_le _ _⟩ else .ok ⟨[], Nat.zero_le _⟩
      let write (m n : Nat) : Except Errno {k : Nat // k ≤ n} :=
        if m < 3 then .ok ⟨min 1 n, Nat.min_le_right _ _⟩ else .error .EAGAIN
      let vars : NetVars := ⟨none, .ofList 0 [5, 6, 7, 8], some true⟩
      (∃ m data, ReadDrained read vars 4 (netTcpReadInto read vars 4) m data)
        ∧ ∃ m data, WriteDrained write vars 4 (netTcpWriteFrom write vars 4).1 (netTcpWriteFrom write vars 4).2 m
            data :=
  netTcp_drains _ _ _ (by decide)

section

def readsOf (rs : List ReadRes) (m n : Nat) : Except Errno {bs : List Byte // bs.length ≤ n} :=
  match rs[m]? with
  | none => .error .EAGAIN
  | some (.error errno) => .error errno
  | some (.data bs) => .ok ⟨bs.take n, List.length_take_le _ _⟩

def writesOf (ws : List WriteRes) (m n : Nat) : Except Errno {k : Nat // k ≤ n} :=
  match ws[m]? with
  | none => .error .EAGAIN
  | some (.error errno) => .error errno
  | some (.count k) => .ok ⟨min k n, Nat.min_le_right _ _⟩

def ReadRes.nread : ReadRes → Except Errno Nat
  | .data bs => .ok bs.length
  | .error errno => .error errno

def WriteRes.nwrite : WriteRes → Except Errno Nat
  | .count k => .ok k
  | .error errno => .error errno

theorem netTcpRead_loop_eq (rs : List ReadRes) (buf : Mem Byte) (buflen m : Nat) (total : List Byte)
    (nread : ReadRes) {v : Vars (Mem Byte) Errno}
    (hv : loop (sysRead (readsOf rs)) buflen ⟨buf.write 0 total, total.length, m, nread.nread⟩ = v)
    : let res := netTcpRead.loop buflen (rs.drop m) total nread
      v.state = buf.write 0 res.1 ∧ v.total = res.1.length ∧ v.last = res.2.nread := by
  generalize hdrop : rs.drop m = rs'
  induction rs' generalizing m total nread v with
  | nil =>
    have hnone : rs[m]? = none := by simpa using hdrop
    unfold netTcpRead.loop
    rw [← hv, loop]
    dsimp only
    split
    . have hcall : sysRead (readsOf rs) (buf.write 0 total) m total.length (buflen - total.length)
          = (.error .EAGAIN, buf.write 0 total) := by
        simp [sysRead, readsOf, hnone]
      rw [hcall]
      exact ⟨rfl, rfl, rfl⟩
    . exact ⟨rfl, rfl, rfl⟩
  | cons r rs' ih =>
    have hsome : rs[m]? = some r := by
      rw [← List.head?_drop, hdrop]
      rfl
    have hdrop' : rs.drop (m + 1) = rs' := by
      rw [← List.tail_drop, hdrop]
      rfl
    unfold netTcpRead.loop
    rw [← hv, loop]
    dsimp only
    split
    . cases r with
      | error errno =>
        have hcall : sysRead (readsOf rs) (buf.write 0 total) m total.length (buflen - total.length)
            = (.error errno, buf.write 0 total) := by
          simp [sysRead, readsOf, hsome]
        rw [hcall]
        exact ⟨rfl, rfl, rfl⟩
      | data bs =>
        have hcall : sysRead (readsOf rs) (buf.write 0 total) m total.length (buflen - total.length)
            = (.ok ⟨(bs.take (buflen - total.length)).length, List.length_take_le _ _⟩,
                buf.write 0 (total ++ bs.take (buflen - total.length))) := by
          simp [sysRead, readsOf, hsome, Mem.write_append]
        rw [hcall]
        dsimp only
        by_cases hnil : bs.take (buflen - total.length) = []
        . rw [if_pos (by rw [hnil]; rfl), if_pos hnil, hnil, List.append_nil]
          exact ⟨rfl, rfl, rfl⟩
        . rw [if_neg (by simpa using hnil), if_neg hnil]
          apply ih (m + 1) (total ++ bs.take (buflen - total.length)) (.data (bs.take (buflen - total.length)))
            _ hdrop'
          rw [List.length_append]
          rfl
    . exact ⟨rfl, rfl, rfl⟩

theorem netTcpReadInto_readsOf (rs : List ReadRes) (vars : NetVars) (buflen : Int)
    : let r := netTcpReadInto (readsOf rs) vars buflen
      r.ret = (netTcpRead buflen rs).nread
        ∧ r.vars.closed = vars.closed.map (fun _ => (netTcpRead buflen rs).closed)
        ∧ r.vars.buf = vars.buf.write 0 (netTcpRead buflen rs).data := by
  obtain ⟨v, hv⟩ : ∃ v, loop (sysRead (readsOf rs)) buflen.toNat ⟨vars.buf, 0, 0, .ok 0⟩ = v := ⟨_, rfl⟩
  obtain ⟨hstate, htotal, hlast⟩ := netTcpRead_loop_eq rs vars.buf buflen.toNat 0 [] (.data []) (v := v) (by
    rw [Mem.write_nil]
    exact hv)
  rw [List.drop_zero] at hstate htotal hlast
  unfold netTcpReadInto netTcpRead
  dsimp only
  rw [hv]
  generalize netTcpRead.loop buflen.toNat rs [] (.data []) = res at hstate htotal hlast ⊢
  obtain ⟨data, nread⟩ := res
  dsimp only at hstate htotal hlast ⊢
  rw [htotal, hstate, hlast]
  by_cases hdata : data = []
  . rw [if_pos hdata, if_pos (by rw [hdata]; rfl), hdata, Mem.write_nil]
    rcases nread with (_ | ⟨b, bs⟩) | errno
    . simp [ReadRes.nread]
    . simp [ReadRes.nread]
    . by_cases hagain : errno = .EAGAIN <;> simp [ReadRes.nread, hagain, ERR]
  . rw [if_neg hdata, if_neg (by simpa using hdata)]
    exact ⟨rfl, rfl, rfl⟩

theorem netTcpWrite_loop_eq (ws : List WriteRes) (buf : Mem Byte) (buflen m total : Nat) (nwrite : WriteRes)
    (sent : List Byte) {v : Vars (List Byte) Errno}
    (hv : loop (sysWrite (writesOf ws) buf) buflen ⟨sent, total, m, nwrite.nwrite⟩ = v)
    : let res := netTcpWrite.loop buflen (ws.drop m) total nwrite
      v.total = res.1 ∧ v.last = res.2.nwrite := by
  generalize hdrop : ws.drop m = ws'
  induction ws' generalizing m total nwrite sent v with
  | nil =>
    have hnone : ws[m]? = none := by simpa using hdrop
    unfold netTcpWrite.loop
    rw [← hv, loop]
    dsimp only
    split
    . have hcall : sysWrite (writesOf ws) buf sent m total (buflen - total) = (.error .EAGAIN, sent) := by
        simp [sysWrite, writesOf, hnone]
      rw [hcall]
      exact ⟨rfl, rfl⟩
    . exact ⟨rfl, rfl⟩
  | cons r ws' ih =>
    have hsome : ws[m]? = some r := by
      rw [← List.head?_drop, hdrop]
      rfl
    have hdrop' : ws.drop (m + 1) = ws' := by
      rw [← List.tail_drop, hdrop]
      rfl
    unfold netTcpWrite.loop
    rw [← hv, loop]
    dsimp only
    split
    . cases r with
      | error errno =>
        have hcall : sysWrite (writesOf ws) buf sent m total (buflen - total) = (.error errno, sent) := by
          simp [sysWrite, writesOf, hsome]
        rw [hcall]
        exact ⟨rfl, rfl⟩
      | count n =>
        have hcall : sysWrite (writesOf ws) buf sent m total (buflen - total)
            = (.ok ⟨min n (buflen - total), Nat.min_le_right _ _⟩,
                sent ++ buf.read total (min n (buflen - total))) := by
          simp [sysWrite, writesOf, hsome]
        rw [hcall]
        dsimp only
        split
        . exact ⟨rfl, rfl⟩
        . exact ih (m + 1) (total + min n (buflen - total)) (.count (min n (buflen - total))) _ rfl hdrop'
    . exact ⟨rfl, rfl⟩

theorem netTcpWriteFrom_writesOf (ws : List WriteRes) (vars : NetVars) (buflen : Int)
    : (netTcpWriteFrom (writesOf ws) vars buflen).1.ret = netTcpWrite buflen ws := by
  obtain ⟨v, hv⟩ : ∃ v, loop (sysWrite (writesOf ws) vars.buf) buflen.toNat ⟨[], 0, 0, .ok 0⟩ = v := ⟨_, rfl⟩
  obtain ⟨htotal, hlast⟩ := netTcpWrite_loop_eq ws vars.buf buflen.toNat 0 0 (.count 0) [] hv
  rw [List.drop_zero] at htotal hlast
  unfold netTcpWriteFrom netTcpWrite
  dsimp only
  rw [hv]
  generalize netTcpWrite.loop buflen.toNat ws 0 (.count 0) = res at htotal hlast ⊢
  obtain ⟨total, nwrite⟩ := res
  dsimp only at htotal hlast ⊢
  rw [htotal, hlast]
  cases nwrite with
  | count k => rfl
  | error errno =>
    dsimp only [WriteRes.nwrite]
    split <;> rfl

end

end Xsocks
