import Xsocks.Core.Basic

/-!
This module contains the drain loops of `netTcpRead` and `netTcpWrite`, over the results of the
`read` and `write` calls they make, and the address text test of `core/net.c`.
-/

namespace Xsocks

def isIPv6Addr (ip : CString) : Bool :=
  ip.bytes.contains 58

/-- The result of one `read`. `data []` is the return value 0, i.e. the end of the stream. -/
inductive ReadRes where
  | data (bs : List Byte)
  | error (errno : Errno)
  deriving DecidableEq

inductive WriteRes where
  | count (n : Nat)
  | error (errno : Errno)
  deriving DecidableEq

structure NetRead where
  nread : Int
  closed : Bool
  data : List Byte
  deriving DecidableEq

/--
`netTcpRead` on a buffer of `buflen` bytes, where `rs` are the results of the `read` calls in order
and every call after them fails with `EAGAIN`. A call never returns more bytes than it asked for.
-/
def netTcpRead (buflen : Int) (rs : List ReadRes) : NetRead :=
  let (data, nread) := loop buflen.toNat rs [] (.data [])
  if data = [] then
    match nread with
    | .data [] => ⟨0, true, []⟩
    | .data (_ :: _) => ⟨0, false, []⟩
    | .error errno => if errno ≠ .EAGAIN then ⟨ERR, false, []⟩ else ⟨0, false, []⟩
  else
    ⟨data.length, false, data⟩
where
  loop (buflen : Nat) (rs : List ReadRes) (total : List Byte) (nread : ReadRes)
      : List Byte × ReadRes :=
    match rs with
    | [] => if total.length < buflen then (total, .error .EAGAIN) else (total, nread)
    | r :: rs =>
      if total.length < buflen then
        match r with
        | .error errno => (total, .error errno)
        | .data bs =>
          let bs := bs.take (buflen - total.length)
          if bs = [] then (total, .data []) else loop buflen rs (total ++ bs) (.data bs)
      else
        (total, nread)

/--
`netTcpWrite` on a buffer of `buflen` bytes, where `ws` are the results of the `write` calls in
order and every call after them fails with `EAGAIN`.
-/
def netTcpWrite (buflen : Int) (ws : List WriteRes) : Int :=
  let (total, nwrite) := loop buflen.toNat ws 0 (.count 0)
  match nwrite with
  | .error errno => if total = 0 ∧ errno ≠ .EAGAIN then ERR else total
  | .count _ => total
where
  loop (buflen : Nat) (ws : List WriteRes) (total : Nat) (nwrite : WriteRes) : Nat × WriteRes :=
    match ws with
    | [] => if total < buflen then (total, .error .EAGAIN) else (total, nwrite)
    | r :: ws =>
      if total < buflen then
        match r with
        | .error errno => (total, .error errno)
        | .count n =>
          let n := min n (buflen - total)
          if n = 0 then (total, .count 0) else loop buflen ws (total + n) (.count n)
      else
        (total, nwrite)

theorem netTcpRead.length_loop_le (buflen : Nat) (rs : List ReadRes) (total : List Byte)
    (nread : ReadRes) (h : total.length ≤ buflen)
    : (loop buflen rs total nread).1.length ≤ buflen := by
  induction rs generalizing total nread with
  | nil =>
    unfold loop
    split <;> exact h
  | cons r rs ih =>
    unfold loop
    split
    . split
      . exact h
      . dsimp only
        split
        . exact h
        . apply ih
          simp only [List.length_append, List.length_take]
          omega
    . exact h

theorem netTcpRead_cases (buflen : Int) (rs : List ReadRes)
    : netTcpRead buflen rs = ⟨ERR, false, []⟩
      ∨ netTcpRead buflen rs = ⟨0, true, []⟩
      ∨ netTcpRead buflen rs = ⟨0, false, []⟩
      ∨ ∃ data : List Byte,
          data ≠ [] ∧ data.length ≤ buflen.toNat
            ∧ netTcpRead buflen rs = ⟨data.length, false, data⟩ := by
  have hle := netTcpRead.length_loop_le buflen.toNat rs [] (.data []) (Nat.zero_le _)
  unfold netTcpRead
  generalize netTcpRead.loop buflen.toNat rs [] (.data []) = res at *
  rcases res with ⟨data, nread⟩
  dsimp only at *
  split
  . split
    . simp
    . simp
    . split <;> simp
  . next hne =>
    right; right; right
    exact ⟨data, hne, hle, rfl⟩

theorem netTcpWrite.loop_le (buflen : Nat) (ws : List WriteRes) (total : Nat) (nwrite : WriteRes)
    (h : total ≤ buflen)
    : (loop buflen ws total nwrite).1 ≤ buflen := by
  induction ws generalizing total nwrite with
  | nil =>
    unfold loop
    split <;> exact h
  | cons r ws ih =>
    unfold loop
    split
    . split
      . exact h
      . dsimp only
        split
        . exact h
        . apply ih
          omega
    . exact h

theorem netTcpWrite_of_nonpos {buflen : Int} (ws : List WriteRes) (h : buflen ≤ 0)
    : netTcpWrite buflen ws = 0 := by
  have hlen : buflen.toNat = 0 := by omega
  unfold netTcpWrite
  rw [hlen]
  cases ws <;> simp [netTcpWrite.loop]

theorem netTcpWrite_cases (buflen : Int) (ws : List WriteRes)
    : netTcpWrite buflen ws = ERR
      ∨ ∃ n : Nat, n ≤ buflen.toNat ∧ netTcpWrite buflen ws = n := by
  have hle := netTcpWrite.loop_le buflen.toNat ws 0 (.count 0) (Nat.zero_le _)
  unfold netTcpWrite
  generalize netTcpWrite.loop buflen.toNat ws 0 (.count 0) = res at *
  rcases res with ⟨total, nwrite⟩
  dsimp only at *
  split
  . split
    . left; rfl
    . right; exact ⟨total, hle, rfl⟩
  . right; exact ⟨total, hle, rfl⟩

theorem netTcpRead_nread (buflen : Int) (rs : List ReadRes)
    : (netTcpRead buflen rs).nread = ERR ∨ 0 ≤ (netTcpRead buflen rs).nread := by
  rcases netTcpRead_cases buflen rs with heq | heq | heq | ⟨data, -, -, heq⟩
  all_goals simp [heq]

theorem netTcpWrite_nwrite (buflen : Int) (ws : List WriteRes)
    : netTcpWrite buflen ws = ERR ∧ 0 < buflen ∨ 0 ≤ netTcpWrite buflen ws := by
  rcases netTcpWrite_cases buflen ws with heq | ⟨n, -, heq⟩
  . by_cases hlen : 0 < buflen
    . exact .inl ⟨heq, hlen⟩
    . rw [netTcpWrite_of_nonpos ws (by omega)]
      simp
  . simp [heq]

theorem netTcpRead_data {buflen : Int} {data : List Byte} (hne : data ≠ [])
    (hle : (data.length : Int) ≤ buflen)
    : netTcpRead buflen [.data data] = ⟨data.length, false, data⟩ := by
  have hpos : 0 < data.length := List.length_pos_iff.mpr hne
  have htake : data.take buflen.toNat = data := List.take_of_length_le (by omega)
  unfold netTcpRead netTcpRead.loop
  rw [List.length_nil, if_pos (by omega), Nat.sub_zero]
  dsimp only
  rw [htake, if_neg hne, List.nil_append, netTcpRead.loop]
  split <;> simp

theorem netTcpWrite_count {buflen n : Nat} (h : buflen ≤ n)
    : netTcpWrite buflen [.count n] = buflen := by
  unfold netTcpWrite netTcpWrite.loop
  rw [Int.toNat_natCast, Nat.sub_zero]
  dsimp only
  rw [Nat.min_eq_right h, Nat.zero_add, netTcpWrite.loop, if_neg (Nat.lt_irrefl _)]
  by_cases hzero : buflen = 0
  . simp [hzero]
  . rw [if_pos (by omega), if_neg hzero]

end Xsocks
