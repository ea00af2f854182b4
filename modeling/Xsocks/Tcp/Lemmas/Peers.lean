import Xsocks.Protocol.Impl.PpBloom
import Xsocks.Protocol.Lemmas.Codec
import Xsocks.Tcp.Lemmas.Header
import Xsocks.Tcp.Lemmas.KeyStream

/-!
This module contains what the two ends of a shadowsocks connection do together, each with the cipher that it has: what
xs-local or xs-redir writes to the connection reaches the destination that it has named to xs-server.
-/

namespace Xsocks

open Wp Run Chunks

section

variable {κ : Type}

theorem Encodable.pos {I : Inet} {host : CString} {atyp : Socks5Atyp} {n : Nat} (h : Encodable I host atyp n)
    : 0 < n := by
  cases h with
  | ipv4 a => decide
  | ipv6 a => decide
  | domain host pos le colon exists_byte => exact Nat.succ_pos _

namespace Server

/-- Each part of a stream completes some plaintext, for which `decrypt` does not need a larger buffer. -/
def Completing (C : Crypto κ) : κ → List (List Byte) → Prop
  | _, [] => True
  | dCtx, seg :: segs =>
    let d := C.decrypt dCtx seg
    d.res ≠ .CRYPTO_NEED_MORE ∧ d.demand ≤ NET_IOBUF_LEN ∧ Completing C d.dCtx segs

/-- The parts of a stream that xs-server is prepared for: the first one holds all of a header of `n` bytes. -/
structure Prepared (C : Crypto κ) (dCtx : κ) (n : Nat) (segs : List (List Byte)) : Prop where
  completing : Completing C dCtx segs
  address : n ≤ (C.received dCtx (segs.take 1)).length

theorem Completing.complete {C : Crypto κ} {dCtx : κ} {S done : List Byte} {ctx : List Byte → κ}
    {plain : List Byte → List Byte} (hstreams : C.Streams dCtx S ctx plain) {segs : List (List Byte)}
    (hsegs : Readable segs) (hS : done ++ segs.flatten <+: S) (h : Completing C (ctx done) segs)
    : Complete C ctx plain done segs := by
  induction segs generalizing done with
  | nil => trivial
  | cons seg segs ih =>
    obtain ⟨hne, -⟩ := hsegs seg List.mem_cons_self
    obtain ⟨hres, hdemand, hrest⟩ := h
    rw [List.flatten_cons, ← List.append_assoc] at hS
    have hseg : done ++ seg <+: S := (List.prefix_append _ _).trans hS
    rw [hstreams.dCtx done seg hseg hne] at hrest
    refine ⟨?_, hdemand, ih (fun s hs => hsegs s (List.mem_cons_of_mem seg hs)) hS hrest⟩
    intro hplain
    rw [hstreams.res done seg hseg hne, if_pos hplain] at hres
    contradiction

theorem delivers_of_prepared {E : Env κ} (happ : E.app = .xsServer) (hI : E.inet.Lawful) {inp : Inputs κ}
    {m : Machine κ} (hm : tcpServerOnAccept E (TcpServer.new.machine .absent inp) = .ok () m)
    {S payload : List Byte} {ctx : List Byte → κ} {plain : List Byte → List Byte}
    (hstreams : E.crypto.Streams inp.ctx.2 S ctx plain) {host : CString} {atyp : Socks5Atyp} {n port : Nat}
    (hhost : Encodable E.inet host atyp n) (hport : port < 65536) (uninit : Uninit)
    (hplain : plain S = encodeAddr E.inet uninit host port ++ payload)
    (hallowed : blocked E atyp host = false) {room : Nat} (hroom : (plain S).length ≤ room)
    {segs : List (List Byte)} (hsegs : Readable segs) (hS : segs.flatten = S)
    (hprepared : Prepared E.crypto inp.ctx.2 n segs)
    : Delivers E m inp room segs host port payload := by
  have hatyp := hhost.socks5HostParse hI
  have hlen : (encodeAddr E.inet uninit host port).length = n := by
    rw [length_encodeAddr, hhost.encodedLen hI]
  have haddr : parseAddr E.inet (plain S) = some ⟨n, atyp, host.bytes, port⟩ := by
    have hparse := parseAddr_encodeAddr hI uninit host (hhost.length_lt hI) hport
    rw [hatyp, hhost.reachedHost hI, hlen] at hparse
    exact parseAddr_of_isPrefix_right hparse (by rw [hplain]; exact List.prefix_append _ _)
  have hpos : 1 ≤ n := (parsed_of_parseAddr haddr).consumed_pos
  rw [tcpServerOnAccept_eq E (by simp [happ]), happ, App.clientType] at hm
  simp only [EStateM.Result.ok.injEq, true_and] at hm
  subst hm
  cases segs with
  | nil =>
    have := hprepared.address
    rw [List.take_nil, Crypto.received, List.length_nil] at this
    omega
  | cons seg segs =>
    obtain ⟨hseg, -⟩ := hsegs seg List.mem_cons_self
    have hprefix : seg <+: S := ⟨segs.flatten, by simpa using hS⟩
    have hfirst : E.crypto.received inp.ctx.2 [seg] = plain seg := by
      have hone : ∀ s ∈ [seg], s ≠ [] := by simpa using hseg
      have := hstreams.received (c := []) hone (by simpa using hprefix)
      simpa [hstreams.plain_nil, hstreams.ctx_nil] using this
    have haddress : n ≤ (plain seg).length := by
      rw [← hfirst]
      exact hprepared.address
    have hcomplete : Complete E.crypto ctx plain [] (seg :: segs) := by
      apply Completing.complete hstreams hsegs
      . rw [List.nil_append, hS]
      . rw [hstreams.ctx_nil]
        exact hprepared.completing
    obtain ⟨-, hdemand, hrest⟩ := hcomplete
    intro uninit'
    have hreached : reachedHost E.inet uninit' (.ofBuf host.bytes) = host := by
      rw [CString.ofBuf_bytes, hhost.reachedHost hI]
    rw [run_schedule_iff happ hI hstreams haddr (by rw [hreached, CString.ofBuf_bytes, hatyp, hallowed]) hroom hsegs hS
      hdemand haddress, hreached]
    refine ⟨hrest, rfl, ?_⟩
    rw [(drop_append_drop_iff (hstreams.mono_of_isPrefix hprefix) _).mpr, hplain, ← length_encodeAddr uninit _ port,
      CString.ofBuf_bytes, List.drop_left]
    rw [CString.ofBuf_bytes, hhost.encodedLen hI]
    exact .inl haddress

end Server

namespace Writer

theorem handlerCall_length_le {E : Env κ} {s : Side} {w w' : Writer κ} {a : HandlerCall κ}
    (h : ∀ p ∈ w.taken, p.length ≤ NET_IOBUF_LEN) (hcall : handlerCall E s w a = .ok w')
    : ∀ p ∈ w'.taken, p.length ≤ NET_IOBUF_LEN := by
  cases a with
  | read off bufLen inp =>
    rw [handlerCall] at hcall
    split at hcall
    . split at hcall
      . contradiction
      . rw [Except.ok.injEq] at hcall
        rw [← hcall]
        exact h
    . contradiction
  | write call =>
    rw [handlerCall, writeCall] at hcall
    split at hcall
    . split at hcall
      . contradiction
      . rw [Except.ok.injEq] at hcall
        rw [← hcall]
        intro p hp
        rcases List.mem_append.mp hp with hp | hp
        . exact h p hp
        . unfold Machine.takes TcpShadowsocks.takes at hp
          split at hp
          . split at hp
            . rw [List.mem_singleton.mp hp]
              exact call.length_le
            . contradiction
          . contradiction
    . contradiction

end Writer

end

variable {ε : Type}

namespace AeadCipher

variable {K : AeadCipher} {ctx ctx' : CipherCtx ε} {p ct : List Byte} {ps : List (List Byte)}

theorem encodeAll_filter (ctx : CipherCtx ε) (ps : List (List Byte))
    : encodeAll (aeadEncrypt K) ctx (ps.filter (· ≠ [])) = encodeAll (aeadEncrypt K) ctx ps := by
  induction ps generalizing ctx with
  | nil => rfl
  | cons p ps ih =>
    by_cases hp : p = []
    . rw [List.filter_cons_of_neg (by simp [hp]), ih, encodeAll, aeadEncrypt, if_pos (by simp [hp])]
      dsimp only
      split
      . next heq => rw [heq]
      . next heq => rw [heq, hp, List.nil_append]
    . rw [List.filter_cons_of_pos (by simp [hp]), encodeAll, encodeAll]
      split
      . rfl
      . rw [ih]

theorem length_le_of_encodeAll (hps : ∀ p ∈ ps, p.length ≤ NET_IOBUF_LEN)
    (h : encodeAll (aeadEncrypt K) ctx ps = some (ct, ctx'))
    : ∀ p ∈ ps, p.length ≤ CHUNK_SIZE_MASK := by
  induction ps generalizing ctx ct with
  | nil => simp
  | cons p ps ih =>
    obtain ⟨y, ctx₁, z, hp, hrest, -⟩ := exists_of_encodeAll_cons h
    intro q hq
    rcases List.mem_cons.mp hq with rfl | hq
    . exact length_le_of_encrypt (hps q List.mem_cons_self) hp
    . exact ih (fun q hq => hps q (List.mem_cons_of_mem p hq)) hrest q hq

end AeadCipher

namespace Cipher

/--
The ciphers of the two ends of a connection, with the same method and key. Each end has its own filter for repeated
salts and IVs. `limit` is how many bytes can be sent.
-/
inductive Keyed (limit : Nat) (eCtx : CipherCtx ε) : Cipher ε → Cipher ε → Prop where
  | aead (K : AeadCipher) (ppbloomCheck : List Byte → Bool) (length_salt : eCtx.salt.length = K.keyLen)
      (fresh : ppbloomCheck eCtx.salt = false)
      : Keyed limit eCtx (.aead K) (.aead { K with ppbloomCheck := ppbloomCheck })
  | stream (E D : StreamCipher ε) (ks : List Byte → Nat → Byte) (encrypts : E.Lawful ks limit)
      (decrypts : D.Lawful ks limit) (inverse : D.Decrypts E) (length_nonce : eCtx.nonce.length = E.nonceLen)
      (fresh : D.ppbloomCheck eCtx.nonce = false)
      : Keyed limit eCtx (.stream E) (.stream D)

structure Paired (limit : Nat) (K K' : Cipher ε) (eCtx dCtx : CipherCtx ε) : Prop where
  keyed : Keyed limit eCtx K K'
  e_init : eCtx.init = 0
  d_init : dCtx.init = 0
  chunk : dCtx.chunk = []

theorem Paired.streams {limit : Nat} {K K' : Cipher ε} {eCtx eCtx' dCtx : CipherCtx ε} {ps : List (List Byte)}
    {ct : List Byte} (h : Paired limit K K' eCtx dCtx) (hne : ps ≠ []) (hps : ∀ p ∈ ps, p.length ≤ NET_IOBUF_LEN)
    (hlimit : K.ivLen + ps.flatten.length ≤ limit)
    (hct : encodeAll (cryptoInit K).encrypt eCtx ps = some (ct, eCtx'))
    : ∃ ctx plain, (cryptoInit K').Streams dCtx ct ctx plain ∧ plain ct = ps.flatten := by
  obtain ⟨keyed, he_init, hd_init, hchunk⟩ := h
  cases keyed with
  | aead K ppbloomCheck length_salt fresh =>
    have hct' : encodeAll (aeadEncrypt K) eCtx (ps.filter (· ≠ [])) = some (ct, eCtx') := by
      rw [AeadCipher.encodeAll_filter]
      exact hct
    have hle := AeadCipher.length_le_of_encodeAll hps hct
    have hps' : ∀ p ∈ ps.filter (· ≠ []), p ≠ [] ∧ p.length ≤ CHUNK_SIZE_MASK := by
      intro p hp
      rw [List.mem_filter] at hp
      exact ⟨of_decide_eq_true hp.2, hle p hp.1⟩
    obtain ⟨hstreams, hplain⟩ := AeadCipher.streams_of_encodeAll (K := { K with ppbloomCheck := ppbloomCheck })
      he_init length_salt hps' hct' hd_init hchunk fresh
    rw [List.flatten_filter_ne_nil] at hplain
    exact ⟨_, _, hstreams, hplain⟩
  | stream E D ks encrypts decrypts inverse length_nonce fresh =>
    obtain ⟨-, hstreams, hplain⟩ :=
      StreamCipher.streams_of_encodeAll encrypts decrypts inverse hne he_init length_nonce hlimit hct hd_init hchunk
        fresh
    exact ⟨_, _, hstreams, hplain⟩

end Cipher

/--
However the handlers of the one end are called and whatever its socket accepts of their bytes, and however these are
cut on their way, as long as xs-server is prepared for the parts: it connects to the destination that the one end has
been given, and the destination gets what the one end has taken, up to what is still on its way.
-/
theorem peers_deliver {limit : Nat} {K K' : Cipher ε}
    -- the end in the client role
    (E : Env (CipherCtx ε)) (hE : E.crypto = cryptoInit K) (hI : E.inet.Lawful) (s : Side) (m : Machine (CipherCtx ε))
    (c : TcpShadowsocks (CipherCtx ε)) (host : CString) (atyp : Socks5Atyp) (n port : Nat)
    (hhost : Encodable E.inet host atyp n) (hport : port < 65536) (hm : ClientRole E m s host port c)
    (calls : List (HandlerCall (CipherCtx ε)))
    (hcalls : Along (handlerCall E s) (Unanswered E s) ⟨m, []⟩ calls) (w : Writer (CipherCtx ε))
    (hrun : run (handlerCall E s) ⟨m, []⟩ calls = .ok w)
    -- xs-server
    (E' : Env (CipherCtx ε)) (hE' : E'.crypto = cryptoInit K') (hinet : E'.inet = E.inet) (happ : E'.app = .xsServer)
    (inp : Inputs (CipherCtx ε)) (m' : Machine (CipherCtx ε))
    (hm' : tcpServerOnAccept E' (TcpServer.new.machine .absent inp) = .ok () m')
    (hallowed : Server.blocked E' atyp host = false)
    -- both of them
    (hpaired : Cipher.Paired limit K K' c.eCtx inp.ctx.2) (hlimit : K.ivLen + (n + w.taken.flatten.length) ≤ limit)
    (segs : List (List Byte)) (hsegs : Readable segs) (hS : segs.flatten = Io.accepted s w.m.trace)
    (hprepared : Server.Prepared E'.crypto inp.ctx.2 n segs) (room : Nat) (hroom : n + w.taken.flatten.length ≤ room)
    : ∃ payload, Server.Delivers E' m' inp room segs host port payload
        ∧ payload <+: w.taken.flatten
        ∧ ∀ c', (w.m.conn s).proto = .shadowsocks c' → c'.unsent = [] → payload = w.taken.flatten := by
  obtain ⟨uninit, hdest⟩ := hm.addrbufDest
  rw [socks5AddrInit_eq, Option.some.injEq] at hdest
  have hlen : c.addrbufDest.length = n := by
    rw [← hdest, length_encodeAddr, hhost.encodedLen hI]
  have hstart : Writer.Headed E s c.eCtx c.addrbufDest ⟨m, []⟩ := by
    refine ⟨c, .inl ⟨hm.state, rfl, rfl, hm.alive, hm.usable, hm.proto, fun _ => hm.tmpBuf, ?_, ?_⟩⟩
    . simp [encodeAll, hm.trace, TcpShadowsocks.unsent, hm.tmpBuf]
    . simp [hm.tmpBufOff]
  obtain ⟨⟨c', hheaded⟩, htaken⟩ :=
    invariant_run (I := fun w => Writer.Headed E s c.eCtx c.addrbufDest w ∧ ∀ p ∈ w.taken, p.length ≤ NET_IOBUF_LEN)
      (fun _ _ _ h ha hcall => ⟨Writer.handlerCall_headed h.1 ha hcall, Writer.handlerCall_length_le h.2 hcall⟩)
      ⟨hstart, by simp⟩ hcalls hrun
  have hI' : E'.inet.Lawful := by rwa [hinet]
  have hhost' : Encodable E'.inet host atyp n := by rwa [hinet]
  rcases hheaded with ⟨-, -, -, hstream⟩ | ⟨-, hstream⟩
  . -- Nothing has been written, and nothing is not what xs-server is prepared for.
    have hnil := (Prod.mk.inj (Option.some.inj hstream.emitted.encodeAll)).1
    have hsegs' : segs = [] := by
      rw [(List.append_eq_nil_iff.mp hnil.symm).1, List.flatten_eq_nil_iff] at hS
      apply List.eq_nil_iff_forall_not_mem.mpr
      intro seg hseg
      exact (hsegs seg hseg).1 (hS seg hseg)
    have hn := hprepared.address
    rw [hsegs', List.take_nil, Crypto.received, List.length_nil] at hn
    exact absurd hhost.pos (by omega)
  . have hct := hstream.emitted.encodeAll
    rw [hE] at hct
    obtain ⟨ctx, plain, hstreams, hplain⟩ := hpaired.streams (List.cons_ne_nil _ _) (by
      intro p hp
      rcases List.mem_cons.mp hp with rfl | hp
      . rw [hlen]
        exact Nat.le_trans hhost.le_max (by decide)
      . exact htaken p hp) (by rw [List.flatten_cons, List.length_append, hlen]; exact hlimit) hct
    rw [List.flatten_cons] at hplain
    have hprefix : Io.accepted s w.m.trace <+: Io.accepted s w.m.trace ++ c'.unsent := List.prefix_append _ _
    have hmono := hstreams.mono_of_isPrefix hprefix
    rw [hplain] at hmono
    -- The first part holds all of the header.
    have hfirst : (segs.take 1).flatten <+: Io.accepted s w.m.trace :=
      ⟨(segs.drop 1).flatten, by rw [← List.flatten_append, List.take_append_drop, hS]⟩
    have hreceived := hstreams.received (c := []) (fun seg hseg => (hsegs seg (List.mem_of_mem_take hseg)).1)
      (hfirst.trans hprefix)
    rw [hstreams.plain_nil, hstreams.ctx_nil, List.nil_append, List.nil_append, ← hE'] at hreceived
    have hle : c.addrbufDest.length ≤ (plain (Io.accepted s w.m.trace)).length := by
      have haddress := hprepared.address
      rw [hreceived, ← hlen] at haddress
      exact Nat.le_trans haddress ((hstreams.of_isPrefix hprefix).mono_of_isPrefix hfirst).length_le
    obtain ⟨payload, hpayload⟩ := List.prefix_of_prefix_length_le (List.prefix_append _ _) hmono hle
    refine ⟨payload, ?_, ?_, ?_⟩
    . rw [← hdest] at hpayload
      have hroom' : (plain (Io.accepted s w.m.trace)).length ≤ room := by
        have := hmono.length_le
        rw [List.length_append, hlen] at this
        omega
      have hstreams' : E'.crypto.Streams inp.ctx.2 (Io.accepted s w.m.trace) ctx plain := by
        rw [hE']
        exact hstreams.of_isPrefix hprefix
      exact Server.delivers_of_prepared happ hI' hm' hstreams' hhost' hport uninit
        (by rw [hinet]; exact hpayload.symm) hallowed hroom' hsegs hS hprepared
    . rw [← hpayload] at hmono
      exact (List.prefix_append_right_inj _).mp hmono
    . intro c'' hc'' hunsent
      rw [hstream.proto, Proto.shadowsocks.injEq] at hc''
      rw [hc'', hunsent, List.append_nil, ← hpayload] at hplain
      exact List.append_cancel_left hplain

theorem peers_deliver_two_parts
    : let K : Cipher Unit := .aead .zero
      let E := Env.default .xsLocal (cryptoInit K) .text
      let E' := Env.default .xsServer (cryptoInit K) .text
      let inp := Inputs.idle (CipherCtx.new (List.replicate 32 7))
      let calls : List (HandlerCall (CipherCtx Unit)) :=
        [.write ⟨[9, 8], by decide, { inp with writes := [[.count 73], [.count 36]] }⟩]
      ∃ w segs, run (handlerCall E .remote) ⟨.client [1, 127, 0, 0, 1, 0, 80] inp.ctx.1, []⟩ calls = .ok w
        ∧ segs.length = 2
        ∧ ∃ payload, Server.Delivers E' (.accepted E' .SHADOWSOCKS inp) inp 9 segs localhost 80 payload
          ∧ payload <+: w.taken.flatten
          ∧ ∀ c', (w.m.conn .remote).proto = .shadowsocks c' → c'.unsent = [] → payload = w.taken.flatten := by
  intro K E E' inp calls
  let tag : List Byte := List.replicate 16 0
  let first := List.replicate 32 7 ++ chunkLenBuf 7 ++ tag ++ [1, 127, 0, 0, 1, 0, 80] ++ tag
  let second := chunkLenBuf 2 ++ tag ++ [9, 8] ++ tag
  have hrole : ClientRole E (.client [1, 127, 0, 0, 1, 0, 80] inp.ctx.1) .remote localhost 80
      (.client [1, 127, 0, 0, 1, 0, 80] inp.ctx.1) :=
    ⟨Machine.alive_pair rfl rfl, Machine.usable_pair rfl rfl _, rfl, rfl, rfl, rfl, rfl, .zero, by decide⟩
  have hpaired : Cipher.Paired 1000 K K inp.ctx.1 inp.ctx.2 :=
    ⟨.aead .zero (fun _ => false) rfl rfl, rfl, rfl, rfl⟩
  obtain ⟨w, hrun, htaken, haccepted⟩
      : ∃ w, run (handlerCall E .remote) ⟨.client [1, 127, 0, 0, 1, 0, 80] inp.ctx.1, []⟩ calls
          = .ok w
        ∧ w.taken = [[9, 8]] ∧ [first, second].flatten = Io.accepted .remote w.m.trace :=
    ⟨_, rfl, by decide +kernel, by decide +kernel⟩
  have hsegs : Readable [first, second] := by
    intro seg hseg
    rcases List.mem_pair.mp hseg with rfl | rfl
    . decide +kernel
    . decide +kernel
  have hprepared : Server.Prepared E'.crypto inp.ctx.2 7 [first, second] :=
    ⟨⟨by decide +kernel, by decide +kernel, by decide +kernel, by decide +kernel, trivial⟩, by decide +kernel⟩
  refine ⟨w, [first, second], hrun, rfl, ?_⟩
  exact peers_deliver E rfl Inet.text_lawful .remote _ _ localhost .ipv4 7 80 encodable_localhost (by decide) hrole
    calls ⟨trivial, fun _ _ => trivial⟩ w hrun E' rfl rfl rfl inp _ (tcpServerOnAccept_eq E' (by decide) inp) rfl
    hpaired (by rw [htaken]; decide) [first, second] hsegs haccepted hprepared 9 (by rw [htaken]; decide)

end Xsocks
