import Xsocks.Protocol.Lemmas.Crypto
import Xsocks.Tcp.Lemmas.Handshake

/-!
This module contains the handshake of `server.c`: the first plaintext of a client, the remote that is
made for the address in it, and the bytes that are kept for the remote.
-/

namespace Xsocks

open Wp

variable {κ : Type}

namespace Machine

def rewound (m : Machine κ) (off : Nat) (nread : Nat) : Machine κ :=
  m.upd .client fun c =>
    if off < nread then
      { c with
          rbuf := c.rbuf.write 0 (c.rbuf.read off (nread - off))
          rbufOff := c.rbufOff + (nread - off) }
    else c

def addressed (m : Machine κ) (c : TcpShadowsocks κ) (data : List Byte) (dCtx : κ)
    (plaintext addrbufDest : List Byte) : Machine κ :=
  let m := (m.received .client 0 data).restarted .client
  let m := (m.setShadowsocks .client { c with dCtx := dCtx }).decrypted .client 0 plaintext
  m.setShadowsocks .client
    { c with dCtx := dCtx, addrbufDest := addrbufDest, state := .HANDSHAKE }

/-- The bytes that are kept for the remote, `client->conn->rbuf[0..rbuf_off)`. -/
def held (m : Machine κ) : List Byte :=
  (m.conn .client).rbuf.read 0 (m.conn .client).rbufOff

variable {m : Machine κ}

theorem conn_rewound_client (off nread : Nat)
    : ∃ rbuf rbufOff, (m.rewound off nread).conn .client
        = { m.conn .client with rbuf := rbuf, rbufOff := rbufOff } := by
  rw [rewound, conn_upd_self]
  split
  . exact ⟨_, _, rfl⟩
  . exact ⟨(m.conn .client).rbuf, (m.conn .client).rbufOff, rfl⟩

@[simp]
theorem conn_rewound_remote (off nread : Nat)
    : (m.rewound off nread).conn .remote = m.conn .remote := by
  simp [rewound]

@[simp]
theorem alive_rewound (off nread : Nat) : (m.rewound off nread).Alive ↔ m.Alive := by
  apply alive_upd
  intro c
  split <;> rfl

theorem held_rewound {P : List Byte} (hrbuf : (m.conn .client).rbuf.read 0 P.length = P)
    (hoff : (m.conn .client).rbufOff = 0) (off : Nat)
    : (m.rewound off P.length).held = P.drop off := by
  have hread : (m.conn .client).rbuf.read off (P.length - off) = P.drop off := by
    conv => rhs; rw [← hrbuf]
    rw [Mem.drop_read, Nat.zero_add]
  rw [held, rewound, conn_upd_self]
  split
  . rw [hread, hoff]
    have := Mem.read_write_self (m.conn .client).rbuf 0 (P.drop off)
    rw [List.length_drop] at this
    simpa using this
  . next hle =>
    rw [hoff, Mem.read_zero, eq_comm, List.drop_eq_nil_iff]
    omega

section

variable {c : TcpShadowsocks κ} {data plaintext addrbufDest : List Byte} {dCtx : κ}

@[simp]
theorem usable_addressed (s : Side)
    : (m.addressed c data dCtx plaintext addrbufDest).Usable s ↔ m.Usable s := by
  simp [addressed]

@[simp]
theorem remote_addressed
    : (m.addressed c data dCtx plaintext addrbufDest).remote = m.remote := by
  rfl

@[simp]
theorem proto_addressed
    : ((m.addressed c data dCtx plaintext addrbufDest).conn .client).proto
        = .shadowsocks
            { c with dCtx := dCtx, addrbufDest := addrbufDest, state := .HANDSHAKE } := by
  simp [addressed]

theorem rbuf_addressed
    : ((m.addressed c data dCtx plaintext addrbufDest).conn .client).rbuf.read 0 plaintext.length
        = plaintext := by
  simp [addressed, setShadowsocks, decrypted]

@[simp]
theorem rbufOff_addressed
    : ((m.addressed c data dCtx plaintext addrbufDest).conn .client).rbufOff
        = (m.conn .client).rbufOff := by
  simp [addressed, setShadowsocks, decrypted, received, restarted]

end

end Machine

section

variable {m : Machine κ} {F : Fault → Machine κ → Prop} {E : Env κ}

namespace Server

theorem wp_newRemote (h : m.Alive) {c : TcpShadowsocks κ} (hc : (m.conn .client).proto = .shadowsocks c)
    {addr : Socks5Addr} (haddr : parseAddr E.inet c.addrbufDest = some addr) (nread : Nat)
    (Q : Unit → Machine κ → Prop)
    : wp (newRemote E nread) Q F m
        ↔
      let host := CString.ofBuf addr.host
      if blocked E addr.atyp host then Q () m.freed
      else if m.inp.nonBlockConnect then
        Q () ((m.dialled E .RAW host addr.port).rewound c.addrbufDest.length nread)
      else Q () (m.log (.connect host addr.port)).freed := by
  rw [newRemote, wp_bind, wp_derefShadowsocks h.client hc, wp_bind, wp_parseDest, haddr]
  dsimp only
  split
  . rw [wp_tcpConnectionFree h]
  . rw [wp_bind, wp_tcpRemoteNew h.client]
    split
    . rw [if_neg (by simp), wp_assign (Machine.usable_dialled h.client _), Machine.rewound]
      have hlen : (0 : Int) < nread - c.addrbufDest.length ↔ c.addrbufDest.length < nread := by
        omega
      have hnat : ((nread : Int) - c.addrbufDest.length).toNat = nread - c.addrbufDest.length := by
        omega
      simp only [hlen, hnat]
    . rw [if_pos rfl, wp_tcpConnectionFree (by simpa using h)]

/-- A client that has been accepted and has not sent an address yet. -/
structure Waiting (m : Machine κ) (c : TcpShadowsocks κ) : Prop where
  alive : m.Alive
  remote : m.remote = false
  proto : (m.conn .client).proto = .shadowsocks c
  state : c.state = .INIT
  rbufLen : (m.conn .client).rbufLen = NET_IOBUF_LEN
  rbufOff : (m.conn .client).rbufOff = 0

theorem Waiting.withInp {c : TcpShadowsocks κ} (h : Waiting m c) (inp : Inputs κ)
    : Waiting (m.withInp inp) c :=
  ⟨by simpa using h.alive, h.remote, h.proto, h.state, h.rbufLen, h.rbufOff⟩

theorem Waiting.held {c : TcpShadowsocks κ} (h : Waiting m c) (data : List Byte) (dCtx : κ)
    (plaintext addrbufDest : List Byte) (host : CString) (port : Nat) (off : Nat)
    : (((m.addressed c data dCtx plaintext addrbufDest).dialled E .RAW host port).rewound off
        plaintext.length).held = plaintext.drop off := by
  rw [Machine.held_rewound]
  . rw [Machine.rbuf_dialled, Machine.rbuf_addressed]
  . rw [Machine.rbufOff_dialled, Machine.rbufOff_addressed, h.rbufOff]

theorem wp_tcpClientOnRead {c : TcpShadowsocks κ} (hI : E.inet.Lawful) (h : Waiting m c)
    {data : List Byte} (hdata : data ≠ [])
    (hread : m.netRead NET_IOBUF_LEN = ⟨data.length, false, data⟩) {d : Decrypted κ}
    (hd : E.crypto.decrypt c.dCtx data = d) (Q : Unit → Machine κ → Prop)
    : wp (Server.tcpClientOnRead E) Q F m
        ↔
      let m' := (m.received .client 0 data).restarted .client
      let m'' := m'.setShadowsocks .client { c with dCtx := d.dCtx }
      if NET_IOBUF_LEN < d.demand then F .brealloc m'
      else
        match d.res with
        | .CRYPTO_OK plaintext =>
          match parseAddr E.inet plaintext with
          | none =>
            Q () (((m''.decrypted .client 0 plaintext).withErr .client
              .ERROR_SHADOWSOCKS_SOCKS5).closed .client)
          | some addr =>
            let host := CString.ofBuf addr.host
            let reached := reachedHost E.inet m.inp.uninit host
            let m' := m.addressed c data d.dCtx plaintext
              (encodeAddr E.inet m.inp.uninit host addr.port)
            if blocked E (socks5HostParse host) reached then Q () m'.freed
            else if m.inp.nonBlockConnect then
              Q () ((m'.dialled E .RAW reached addr.port).rewound (encodedLen host) plaintext.length)
            else Q () (m'.log (.connect reached addr.port)).freed
        | _ => Q () ((m''.withErr .client .ERROR_SHADOWSOCKS_DECRYPT).closed .client) := by
  have hpos : 0 < data.length := List.length_pos_iff.mpr hdata
  rw [Server.tcpClientOnRead, wp_bind, wp_deref h.alive.client, wp_bind, wp_get, h.remote,
    if_pos rfl, wp_bind, h.rbufLen, connRead, wp_bind, wp_deref h.alive.client, h.proto]
  dsimp only
  rw [wp_tcpShadowsocksConnRead h.alive h.alive.client h.proto, hread,
    TcpShadowsocks.reading_of_INIT h.state, Machine.setShadowsocks_self h.proto]
  dsimp only
  rw [hd, if_neg (by rw [ERR]; omega), if_neg (by simp), if_neg (by omega), DecryptPost]
  have hnat : ((NET_IOBUF_LEN : Int) < d.demand) = (NET_IOBUF_LEN < d.demand) := by
    rw [Int.ofNat_lt]
  simp only [hnat]
  split
  . rfl
  . cases d.res with
    | CRYPTO_NEED_MORE => simp [ERR]
    | CRYPTO_ERROR => simp [ERR]
    | CRYPTO_OK plaintext =>
      dsimp only
      rw [ParsePost, if_pos h.state]
      cases hparse : parseAddr E.inet plaintext with
      | none => simp [ERR]
      | some addr =>
        have hparsed := parsed_of_parseAddr hparse
        have hlen := Nat.lt_of_lt_of_le hparsed.consumed_pos hparsed.consumed_le
        have hle := CString.length_ofBuf_le addr.host
        have hlt := hparsed.length_host
        dsimp only
        rw [if_pos (by omega), wp_newRemote (by simpa using h.alive) (Machine.proto_setShadowsocks _)
          (parseAddr_encodeAddr hI _ _ (by omega) hparsed.port), length_encodeAddr,
          CString.ofBuf_bytes]
        rfl

theorem waiting_accepted (E : Env κ) (inp : Inputs κ)
    : Waiting (.accepted E .SHADOWSOCKS inp) (.new inp.ctx) :=
  ⟨Machine.alive_accepted E _ _, rfl, rfl, rfl, rfl, rfl⟩

end Server

end

/--
What xs-server keeps for the remote is what stands behind the address, exactly if the address that was
sent is as long as the one the server makes of it or nothing stands behind it.
-/
theorem held_payload_iff (E : Env κ) (hI : E.inet.Lawful) (happ : E.app = .xsServer) (m : Machine κ)
    (c : TcpShadowsocks κ) (h : Server.Waiting m c) (data : List Byte) (hdata : data ≠ [])
    (hread : m.netRead NET_IOBUF_LEN = ⟨data.length, false, data⟩) (P : List Byte) (d : Decrypted κ)
    (hdecrypt : E.crypto.decrypt c.dCtx data = d) (hres : d.res = .CRYPTO_OK P)
    (hdemand : d.demand ≤ NET_IOBUF_LEN) (addr : Socks5Addr) (hparse : parseAddr E.inet P = some addr)
    : ∃ m', tcpClientOnRead E m = .ok () m'
        ∧ (m'.remote = true
            → (m'.held = P.drop addr.consumed ↔ addr.Strips (P.drop addr.consumed))) := by
  apply exists_ok_unit
  rw [tcpClientOnRead, happ]
  dsimp only
  rw [Server.wp_tcpClientOnRead hI h hdata hread hdecrypt]
  dsimp only
  rw [if_neg (by omega), hres]
  dsimp only
  rw [hparse]
  dsimp only
  split
  . simp [h.remote]
  . split
    . intro _
      rw [h.held, (parsed_of_parseAddr hparse).strips_iff hI]
    . simp [h.remote]

theorem held_payload_ipv4
    : let E := Env.default .xsServer .copy .text
      let m := Machine.accepted E .SHADOWSOCKS
        { Inputs.idle () with reads := [[.data [1, 127, 0, 0, 1, 0, 80, 9, 9]]] }
      ∃ m', tcpClientOnRead E m = .ok () m' ∧ m'.remote = true ∧ m'.held = [9, 9] := by
  intro E m
  have hremote : wp (tcpClientOnRead E) (fun _ m => m.remote = true) (fun _ _ => False) m := by
    decide +kernel
  obtain ⟨m', heq, h⟩ := held_payload_iff E Inet.text_lawful rfl m _ (Server.waiting_accepted E _)
    [1, 127, 0, 0, 1, 0, 80, 9, 9] (by decide) (by decide +kernel) [1, 127, 0, 0, 1, 0, 80, 9, 9] _ rfl
    rfl (by decide) ⟨7, .ipv4, localhost.bytes, 80⟩ (by decide +kernel)
  have hremote := post_of_ok hremote heq
  exact ⟨m', heq, hremote, (h hremote).mpr trivial⟩

/--
The name "1.2.3.4" is sent in four bytes more than the server encodes it in, so the last four bytes of
the address are kept together with the payload.
-/
theorem held_header
    : let E := Env.default .xsServer .copy .text
      let P : List Byte := [3, 7, 49, 46, 50, 46, 51, 46, 52, 0, 80, 9, 9]
      let m := Machine.accepted E .SHADOWSOCKS { Inputs.idle () with reads := [[.data P]] }
      E.inet.Lawful
        ∧ Server.Waiting m (.new ((), ()))
        ∧ m.netRead NET_IOBUF_LEN = ⟨P.length, false, P⟩
        ∧ (E.crypto.decrypt () P).res = .CRYPTO_OK P
        ∧ (E.crypto.decrypt () P).demand ≤ NET_IOBUF_LEN
        ∧ parseAddr E.inet P = some ⟨11, .domain, [49, 46, 50, 46, 51, 46, 52], 80⟩
        ∧ ∃ m', tcpClientOnRead E m = .ok () m' ∧ m'.remote = true
            ∧ m'.held = [46, 52, 0, 80, 9, 9] ∧ m'.held ≠ P.drop 11 := by
  intro E P m
  exact ⟨Inet.text_lawful, Server.waiting_accepted E _, by decide +kernel, rfl, by decide,
    by decide +kernel, exists_ok_unit (by decide +kernel)⟩

end Xsocks
