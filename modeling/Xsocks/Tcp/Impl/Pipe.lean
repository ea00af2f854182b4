import Xsocks.Tcp.Impl.Conn

/-!
This module contains `tcpPipe` and `tcpPipeWrite` of `protocol/tcp.c`.
-/

namespace Xsocks

variable {κ : Type}

def writeWbuf (E : Env κ) (s : Side) : Proc κ Int := do
  let c ← deref s
  match c.wbuf with
  | none => throw .nullDeref
  | some (owner, off) =>
    let o ← deref owner
    connWrite E s (o.rbuf.read off c.wbufLen.toNat) c.wbufLen

def TcpConn.advance (c : TcpConn κ) (n : Int) : TcpConn κ :=
  { c with wbuf := c.wbuf.map fun p => (p.1, p.2 + n.toNat), wbufLen := c.wbufLen - n }

def tcpPipe (E : Env κ) (src dst : Side) : Proc κ Int := do
  logIo (.pipe src dst)
  let c ← deref src
  assign dst fun d => { d with pipe := some src, piped := true }
  let nread ← connRead E src c.rbufOff (c.rbufLen - c.rbufOff)
  if nread ≤ 0 then return nread
  else
    assign src fun c => { c with rbufOff := c.rbufOff + nread.toNat }
    let c ← deref src
    assign dst fun d => { d with wbuf := some (d.wbuf.getD (src, 0)), wbufLen := c.rbufOff }
    let nwrite ← writeWbuf E dst
    if nwrite = ERR then return ERR
    else
      assign dst fun d => d.advance nwrite
      let d ← deref dst
      if 0 < d.wbufLen then
        addEventWrite dst
        delEventRead src
        return nread
      else
        assign src fun c => { c with rbufOff := 0 }
        assign dst fun d => { d with wbuf := none, wbufLen := 0 }
        delEventWrite dst
        addEventRead src
        return nread

def tcpPipeWrite (E : Env κ) (s : Side) : Proc κ Int := do
  let c ← deref s
  if c.wbufLen = 0 then
    match c.pipe with
    | none => throw .nullDeref
    | some p =>
      assign p fun c => { c with rbufOff := 0 }
      assign s fun c => { c with wbuf := none, wbufLen := 0 }
      addEventRead p
      delEventWrite s
      return OK
  else
    let nwrite ← writeWbuf E s
    if nwrite = ERR then return nwrite
    else
      assign s fun c => if 0 < nwrite then c.advance nwrite else c
      addEventWrite s
      return nwrite

end Xsocks
