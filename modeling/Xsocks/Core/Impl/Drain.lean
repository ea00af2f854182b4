import Xsocks.Core.Basic
import Xsocks.Lib.Drain

/-!
This module contains `netTcpRead` and `netTcpWrite` of `core/net.c` as they work on the variables of their
caller, with the results of all `read` and `write` calls that could follow.
-/

namespace Xsocks

/-- The variables that the pointer arguments of `netTcpRead` and `netTcpWrite` point to. -/
structure NetVars where
  /-- The error whose text is in `err`, if one has been put there. -/
  err : Option Errno
  buf : Mem Byte
  /-- `*closed`, and `none` if `closed` is `NULL`. -/
  closed : Option Bool

/-- The result of a call: the return value, the variables and how many system calls there were. -/
structure NetResult where
  ret : Int
  vars : NetVars
  calls : Nat

/-- `read m n` is the result of the `read` with the number `m` for `n` bytes. The bytes are put into `buf`. -/
def sysRead (read : Nat → (n : Nat) → Except Errno {bs : List Byte // bs.length ≤ n})
    : Drain.Call (Mem Byte) Errno :=
  fun buf m total n =>
    match read m n with
    | .error errno => (.error errno, buf)
    | .ok bs => (.ok ⟨bs.val.length, bs.property⟩, buf.write total bs.val)

def netTcpReadInto (read : Nat → (n : Nat) → Except Errno {bs : List Byte // bs.length ≤ n}) (vars : NetVars)
    (buflen : Int)
    : NetResult :=
  let vars := { vars with closed := vars.closed.map fun _ => false }
  let v := Drain.loop (sysRead read) buflen.toNat ⟨vars.buf, 0, 0, .ok 0⟩
  let vars := { vars with buf := v.state }
  if v.total = 0 then
    match v.last with
    | .ok 0 => ⟨v.total, { vars with closed := vars.closed.map fun _ => true }, v.calls⟩
    | .ok _ => ⟨v.total, vars, v.calls⟩
    | .error errno =>
      if errno ≠ .EAGAIN then ⟨ERR, { vars with err := some errno }, v.calls⟩ else ⟨v.total, vars, v.calls⟩
  else ⟨v.total, vars, v.calls⟩

/-- `write m n` is the result of the `write` with the number `m` for `n` bytes. The bytes stay in `buf`. -/
def sysWrite (write : Nat → (n : Nat) → Except Errno {k : Nat // k ≤ n}) (buf : Mem Byte)
    : Drain.Call (List Byte) Errno :=
  fun sent m total n =>
    match write m n with
    | .error errno => (.error errno, sent)
    | .ok k => (.ok k, sent ++ buf.read total k.val)

def netTcpWriteFrom (write : Nat → (n : Nat) → Except Errno {k : Nat // k ≤ n}) (vars : NetVars) (buflen : Int)
    : NetResult × List Byte :=
  let v := Drain.loop (sysWrite write vars.buf) buflen.toNat ⟨[], 0, 0, .ok 0⟩
  match v.last with
  | .error errno =>
    if v.total = 0 ∧ errno ≠ .EAGAIN then (⟨ERR, { vars with err := some errno }, v.calls⟩, v.state)
    else (⟨v.total, vars, v.calls⟩, v.state)
  | .ok _ => (⟨v.total, vars, v.calls⟩, v.state)

end Xsocks
