import Xsocks.Tcp.Lemmas.Phases

/-!
This module contains what the handlers do to a pair whose remote has been dialled: the remote gets what
the handshake has left for it, and both connections are piped to each other.
-/

namespace Xsocks

open Wp

variable {κ : Type}

namespace Machine

variable {m m' : Machine κ} {s : Side} {E : Env κ} {left : List Byte} {m₀ : Machine κ}

def During (m₀ : Machine κ) (E : Env κ) (left : List Byte) (m : Machine κ) : Prop :=
  m₀.Follows m ∧ m.Joined E left

def Ending (m₀ : Machine κ) (left : List Byte) (m : Machine κ) : Prop :=
  m₀.Follows m ∧ m.Finished left

def Told (m₀ : Machine κ) (E : Env κ) (left : List Byte) (r : Int) (m : Machine κ) : Prop :=
  (0 ≤ r ∧ m₀.During E left m) ∨ (r = ERR ∧ m₀.Ending left m)

theorem During.broken (h : m₀.During E left m) {f : Fault} (hf : f ≠ .useAfterFree) : m₀.Broken left f m where
  follows := h.1
  story := .joined h.2.trace
  ended heq := absurd heq hf
  not_refused _ := h.2.trace.not_refused

theorem During.framed (h : m₀.During E left m) (hm : m.Framed s m') : m₀.During E left m' :=
  ⟨h.1.trans hm.follows, h.2.framed hm⟩

end Machine

section

variable {E : Env κ} {left : List Byte} {m₀ : Machine κ} {s : Side}

theorem Replies.told {x : Proc κ Int} (hx : ∀ m : Machine κ, m.Alive → Replies m s x)
    : Triple (m₀.During E left) x (m₀.Told E left) (m₀.Broken left) := by
  intro m h
  apply wp_mono (hx m h.2.intact.alive m Machine.framed_refl)
  . intro r m' hr
    rcases hr with ⟨hr, hm'⟩ | ⟨hr, m'', hm'', rfl⟩
    . exact .inl ⟨hr, h.framed hm'⟩
    . have h'' := h.framed hm''
      refine .inr ⟨hr, h''.1.trans (Machine.follows_closed h''.2.intact.alive s), ?_⟩
      exact h''.2.intact.finished_closed (.joined h''.2.trace) s
  . intro f m' ⟨hf, hm'⟩
    exact (h.framed hm').broken hf

theorem Told.bind {α : Type} {x : Proc κ Int} {f : Int → Proc κ α} {Q : α → Machine κ → Prop}
    (hx : Triple (m₀.During E left) x (m₀.Told E left) (m₀.Broken left))
    (hok : ∀ r, 0 ≤ r → Triple (m₀.During E left) (f r) Q (m₀.Broken left))
    (herr : Triple (m₀.Ending left) (f ERR) Q (m₀.Broken left))
    : Triple (m₀.During E left) (x >>= f) Q (m₀.Broken left) := by
  apply Triple.bind hx
  intro r
  apply Triple.or
  . exact Triple.of_and (hok r)
  . apply Triple.of_and
    intro hr
    rw [hr]
    exact herr

theorem told_pure {r : Int} (hr : 0 ≤ r)
    : Triple (m₀.During E left) (pure r) (m₀.Told E left) (m₀.Broken left) :=
  Triple.pure fun _ h => .inl ⟨hr, h⟩

theorem told_ending : Triple (m₀.Ending left) (pure ERR) (m₀.Told E left) (m₀.Broken left) :=
  Triple.pure fun _ h => .inr ⟨rfl, h⟩

theorem during_deref
    : Triple (m₀.During E left) (deref s) (fun c m => m₀.During E left m ∧ m.conn s = c) (m₀.Broken left) := by
  intro m h
  rw [wp_deref (h.2.usable s)]
  exact ⟨h, rfl⟩

theorem during_deref_bind {α : Type} {x : TcpConn κ → Proc κ α} {Q : α → Machine κ → Prop}
    (hx : ∀ c, Triple (m₀.During E left) (x c) Q (m₀.Broken left))
    : Triple (m₀.During E left) (deref s >>= x) Q (m₀.Broken left) :=
  Triple.bind during_deref fun c => Triple.mono (hx c) (fun _ h => h.1) fun _ _ h => h

theorem during_pipe {α : Type} {f : TcpConn κ → TcpConn κ} {x : Proc κ α} {Q : α → Machine κ → Prop}
    (hf : TcpConn.Buffers f)
    (hpipe : ∀ c, (∀ t, c.pipe = some t → t = s.other) → ∀ t, (f c).pipe = some t → t = s.other)
    (hx : Triple (m₀.During E left) x Q (m₀.Broken left))
    : Triple (m₀.During E left) (do assign s f; x) Q (m₀.Broken left) := by
  refine Triple.bind (Q := fun _ => m₀.During E left) ?_ fun _ => hx
  intro m h
  rw [wp_assign (h.2.usable s)]
  refine ⟨h.1.trans (Machine.follows_upd ?_ ?_), h.2.upd hf (hpipe _ (h.2.pipe s))⟩
  . exact hf.harmless.live
  . intro c
    rw [hf]

theorem during_assign {α : Type} {f : TcpConn κ → TcpConn κ} {x : Proc κ α} {Q : α → Machine κ → Prop}
    (hf : TcpConn.Buffers f) (hpipe : ∀ c, (f c).pipe = c.pipe)
    (hx : Triple (m₀.During E left) x Q (m₀.Broken left))
    : Triple (m₀.During E left) (do assign s f; x) Q (m₀.Broken left) := by
  refine during_pipe hf ?_ hx
  intro c hc
  rw [hpipe]
  exact hc

theorem Machine.Joined.switch {m : Machine κ} (h : m.Joined E left) (src : Side) (busy : Bool)
    : ((m.upd src.other fun c => { c with we := busy }).upd src fun c => { c with re := !busy }).Joined E
        left := by
  have hne : src ≠ src.other := by cases src <;> simp [Side.other]
  have hother : src.other.other = src := by cases src <;> rfl
  have hupd : (m.upd src.other fun c => { c with we := busy }).Intact E :=
    h.intact.upd (h.usable _) ⟨fun _ => rfl, fun _ => rfl, fun _ h => h⟩
  constructor
  case intact =>
    refine hupd.upd ?_ ⟨fun _ => rfl, fun _ => rfl, fun _ h => h⟩
    simpa using h.usable src
  case remote => exact h.remote
  case connected =>
    intro t
    simpa using h.connected t
  case flow =>
    intro t
    by_cases ht : t = src
    . subst ht
      cases busy <;> simp [hne.symm]
    . have ht' : t = src.other := by cases t <;> cases src <;> simp_all [Side.other]
      subst ht'
      have hflow := h.flow src.other
      rw [hother] at hflow ⊢
      simpa [hne, hne.symm] using hflow
  case pipe =>
    intro t
    simpa using h.pipe t
  case trace => exact h.trace

theorem Machine.upd_comm {m : Machine κ} {t : Side} (hne : t ≠ s) (f g : TcpConn κ → TcpConn κ)
    : (m.upd t f).upd s g = (m.upd s g).upd t f := by
  unfold Machine.upd
  simp [Function.update_of_ne hne, Function.update_of_ne hne.symm, Function.update_comm hne]

theorem Machine.During.switch {m : Machine κ} (h : m₀.During E left m) (src : Side) (busy : Bool)
    : m₀.During E left
        ((m.upd src.other fun c => { c with we := busy }).upd src fun c => { c with re := !busy }) := by
  refine ⟨h.1.trans ?_, h.2.switch src busy⟩
  refine (Machine.follows_upd (s := src.other) ?_ ?_).trans (Machine.follows_upd ?_ ?_)
  all_goals exact fun _ => rfl

theorem told_suspended {src : Side} {nread : Int} (hnread : 0 ≤ nread)
    : Triple (m₀.During E left) (do addEventWrite src.other; delEventRead src; return nread)
        (m₀.Told E left) (m₀.Broken left) := by
  intro m h
  rw [wp_bind, addEventWrite, wp_assign (h.2.usable _), wp_bind, delEventRead,
    wp_assign (by simpa using h.2.usable src), wp_pure]
  exact .inl ⟨hnread, h.switch src true⟩

theorem told_released {src : Side} {nread : Int} (hnread : 0 ≤ nread)
    : Triple (m₀.During E left) (do delEventWrite src.other; addEventRead src; return nread)
        (m₀.Told E left) (m₀.Broken left) := by
  intro m h
  rw [wp_bind, delEventWrite, wp_assign (h.2.usable _), wp_bind, addEventRead,
    wp_assign (by simpa using h.2.usable src), wp_pure]
  exact .inl ⟨hnread, h.switch src false⟩

theorem told_tcpPipe (src : Side)
    : Triple (m₀.During E left) (tcpPipe E src src.other) (m₀.Told E left) (m₀.Broken left) := by
  have hother : src.other.other = src := by cases src <;> rfl
  refine Triple.bind (Q := fun _ => m₀.During E left) ?_ fun _ => ?_
  . apply Triple.modify
    intro m h
    refine ⟨h.1.trans (Machine.follows_log (by simp)), h.2.intact.log (by simp), h.2.remote, h.2.connected,
      h.2.flow, h.2.pipe, ?_⟩
    exact h.2.trace.append (by simp [Io.Later])
  . apply during_deref_bind
    intro c
    refine during_pipe (fun _ => rfl) ?_ ?_
    . intro _ _ t ht
      rw [Option.some.injEq] at ht
      rw [← ht, hother]
    . apply Told.bind (Replies.told fun _ h => replies_connRead h)
      . intro nread hnread
        split
        . exact told_pure hnread
        . refine during_assign (fun _ => rfl) (fun _ => rfl) ?_
          apply during_deref_bind
          intro c
          refine during_assign (fun _ => rfl) (fun _ => rfl) ?_
          apply Told.bind (Replies.told fun _ h => replies_writeWbuf h)
          . intro nwrite hnwrite
            rw [if_neg (by rw [ERR]; omega)]
            refine during_assign (fun _ => rfl) (fun _ => rfl) ?_
            apply during_deref_bind
            intro d
            split
            . exact told_suspended hnread
            . refine during_assign (fun _ => rfl) (fun _ => rfl) ?_
              refine during_assign (fun _ => rfl) (fun _ => rfl) ?_
              exact told_released hnread
          . rw [if_pos rfl]
            exact told_ending
      . rw [if_pos (by decide)]
        exact told_ending

theorem told_resumed
    : Triple (m₀.During E left) (do addEventRead s.other; delEventWrite s; return OK)
        (m₀.Told E left) (m₀.Broken left) := by
  intro m h
  have hother : s.other.other = s := by cases s <;> rfl
  have hne : s.other ≠ s := by cases s <;> simp [Side.other]
  rw [wp_bind, addEventRead, wp_assign (h.2.usable _), wp_bind, delEventWrite,
    wp_assign (by simpa using h.2.usable s), wp_pure, Machine.upd_comm hne]
  have hswitch := h.switch s.other false
  rw [hother] at hswitch
  exact .inl ⟨by decide, hswitch⟩

theorem told_continued {nwrite : Int} (hnwrite : 0 ≤ nwrite)
    : Triple (m₀.During E left) (do addEventWrite s; return nwrite) (m₀.Told E left) (m₀.Broken left) := by
  intro m h
  rw [wp_bind, addEventWrite, wp_assign (h.2.usable _), wp_pure]
  refine .inl ⟨hnwrite, h.1.trans (Machine.follows_upd (fun _ => rfl) fun _ => rfl), ?_⟩
  constructor
  case intact => exact h.2.intact.upd (h.2.usable s) ⟨fun _ => rfl, fun _ => rfl, fun _ h => h⟩
  case remote => exact h.2.remote
  case connected =>
    intro t
    simpa using h.2.connected t
  case flow =>
    intro t
    have hflow := h.2.flow t
    rw [Machine.re_upd, Machine.we_upd, ite_self]
    split
    . exact .inr rfl
    . exact hflow
  case pipe =>
    intro t
    simpa using h.2.pipe t
  case trace => exact h.2.trace

theorem told_tcpPipeWrite
    : Triple (m₀.During E left) (tcpPipeWrite E s) (m₀.Told E left) (m₀.Broken left) := by
  apply Triple.bind during_deref
  intro c m ⟨h, hc⟩
  refine (?_ : Triple (m₀.During E left) _ _ (m₀.Broken left)) m h
  split
  . split
    . exact Triple.throw fun _ h => h.broken (by simp)
    . next p hpipe =>
      -- The connection is piped from the other one.
      have hp : p = s.other := h.2.pipe s p (by rw [hc, hpipe])
      rw [hp]
      refine during_assign (fun _ => rfl) (fun _ => rfl) ?_
      refine during_assign (fun _ => rfl) (fun _ => rfl) ?_
      exact told_resumed
  . apply Told.bind (Replies.told fun _ h => replies_writeWbuf h)
    . intro nwrite hnwrite
      rw [if_neg (by rw [ERR]; omega)]
      refine during_assign ?_ ?_ (told_continued hnwrite)
      . intro c
        split <;> rfl
      . intro c
        split <;> rfl
    . rw [if_pos rfl]
      exact told_ending

theorem engaged_of_told {x : Proc κ Int}
    (hx : Triple (m₀.During E left) x (m₀.Told E left) (m₀.Broken left))
    : Triple (m₀.During E left) (do let _ ← x; pure ()) (fun _ m => m₀.Follows m ∧ m.Engaged E left)
        (m₀.Broken left) := by
  apply Told.bind hx
  . intro r hr
    exact Triple.pure fun _ h => ⟨h.1, .inr (.inl h.2)⟩
  . exact Triple.pure fun _ h => ⟨h.1, .inr (.inr h.2)⟩

theorem engaged_during
    : Triple (m₀.During E left) (pure ()) (fun _ m => m₀.Follows m ∧ m.Engaged E left)
        (m₀.Broken left) :=
  Triple.pure fun _ h => ⟨h.1, .inr (.inl h.2)⟩

theorem engaged_tcpClientOnRead
    : Triple (m₀.During E left) (tcpClientOnRead E) (fun _ m => m₀.Follows m ∧ m.Engaged E left)
        (m₀.Broken left) := by
  unfold tcpClientOnRead
  split
  . apply during_deref_bind
    intro c
    refine Triple.bind (Q := fun _ => m₀.During E left) ?_ fun c5 => ?_
    . apply during_deref_bind
      intro c
      split
      . exact Triple.pure fun _ h => h
      . exact Triple.throw fun _ h => h.broken (by simp)
    . split
      . apply Told.bind (Replies.told fun _ h => replies_connRead h)
        . intro nread hnread
          split
          . apply during_deref_bind
            intro c
            exact engaged_of_told (Replies.told fun _ h => replies_connWrite h)
          . exact engaged_during
        . rw [if_neg (by decide)]
          exact Triple.pure fun _ h => ⟨h.1, .inr (.inr h.2)⟩
      . intro m h
        rw [wp_bind, wp_get, h.2.remote, if_neg (by simp)]
        exact engaged_of_told (told_tcpPipe .client) m h
  . apply during_deref_bind
    intro c m h
    rw [wp_bind, wp_get, h.2.remote, if_neg (by simp)]
    exact engaged_of_told (told_tcpPipe .client) m h
  . apply during_deref_bind
    intro _
    apply during_deref_bind
    intro _
    exact engaged_of_told (told_tcpPipe .client)

theorem wp_tcpConnTimeoutHandler {m : Machine κ} {F : Fault → Machine κ → Prop} (h : m.Alive)
    (hs : m.Usable s) (Q : Unit → Machine κ → Prop)
    : wp (tcpConnTimeoutHandler s) Q F m ↔ Q () ((m.withErr s .TCP_ERROR_TIMEOUT).closed s) := by
  have hs' : (m.withErr s .TCP_ERROR_TIMEOUT).Usable s := by simpa using hs
  have h' : (m.withErr s .TCP_ERROR_TIMEOUT).Alive := by simpa using h
  unfold tcpConnTimeoutHandler fireTimeout
  rw [wp_bind, wp_setErr hs, wp_bind, wp_bind, wp_deref hs']
  cases s with
  | client => simp only [tcpClientOnTimeout, wp_bind, wp_deref hs', wp_pure, wp_fireClose h' hs']
  | remote =>
    simp only [tcpRemoteOnTimeout, wp_bind, wp_deref hs', wp_deref h'.client, wp_pure,
      wp_fireClose h' hs']

theorem Machine.Intact.wp_timeout {m : Machine κ} (h : m.Intact E) (hs : m.Usable s)
    (hstory : Io.Story left m.trace) {F : Fault → Machine κ → Prop}
    : wp (tcpConnTimeoutHandler s) (fun _ m' => m.Follows m' ∧ m'.Finished left) F m := by
  have herr : (m.withErr s .TCP_ERROR_TIMEOUT).Intact E :=
    h.upd hs ⟨fun _ => rfl, fun _ => rfl, fun _ h => h⟩
  rw [wp_tcpConnTimeoutHandler h.alive hs]
  refine ⟨?_, herr.finished_closed hstory s⟩
  exact Machine.follows_withErr.trans (Machine.follows_closed herr.alive s)

theorem Machine.Joined.wp_handler {m : Machine κ} (h : m.Joined E left) (s : Side) (r : Ready)
    : wp (handler E s r) (fun _ m' => m.Follows m' ∧ m'.Engaged E left) (m.Broken left) m := by
  have hduring : m.During E left m := ⟨.refl, h⟩
  have hs := h.usable s
  cases r with
  | read =>
    rw [handler, wp_tcpConnReadHandler hs (h.connected s)]
    cases s with
    | client =>
      rw [wp_fireRead_client hs]
      exact engaged_tcpClientOnRead m hduring
    | remote =>
      refine (?_ : Triple (m.During E left) _ _ (m.Broken left)) m hduring
      apply during_deref_bind
      intro _
      apply during_deref_bind
      intro _
      apply during_deref_bind
      intro _
      exact engaged_of_told (told_tcpPipe .remote)
  | write =>
    rw [handler, tcpConnWriteHandler, handleTcpConnection, wp_bind, wp_bind, wp_deref hs, h.connected s,
      if_pos rfl, wp_pure, if_neg (by simp)]
    refine (?_ : Triple (m.During E left) _ _ (m.Broken left)) m hduring
    apply during_deref_bind
    intro c
    split
    . exact engaged_of_told told_tcpPipeWrite
    . apply during_deref_bind
      intro _
      exact engaged_during
  | timeout =>
    apply wp_mono (h.intact.wp_timeout hs (.joined h.trace))
    . exact fun _ m' hm' => ⟨hm'.1, .inr (.inr hm'.2)⟩
    . exact fun _ _ hF => hF

end

section

variable {E : Env κ} {left : List Byte} {m : Machine κ} {F : Fault → Machine κ → Prop}

structure Machine.Connected (m₀ : Machine κ) (E : Env κ) (between : List Io) (m : Machine κ) : Prop where
  follows : m₀.Follows m
  intact : m.Intact E
  remote : m.remote = true
  connected : ∀ s, (m.conn s).connected = true
  unpiped : (m.conn .remote).piped = false
  pipe : ∀ s, (m.conn s).pipe = none
  trace : m.trace = m₀.trace ++ .onConnect .remote OK :: between

theorem Machine.Dialling.connected (h : m.Dialling E left) : m.Connected E [] m.connected := by
  have hremote := h.intact.alive.remote h.remote
  constructor
  case follows =>
    refine (Machine.follows_upd (s := .remote) ?_ ?_).trans (Machine.follows_log ?_)
    . exact fun _ => rfl
    . exact fun _ => rfl
    . simp
  case intact =>
    refine Machine.Intact.log ?_ (by simp)
    exact h.intact.upd hremote ⟨fun _ => rfl, fun _ => rfl, fun _ h => h⟩
  case remote => exact h.remote
  case connected =>
    intro s
    cases s with
    | client => simpa [Machine.connected] using h.client
    | remote => simp [Machine.connected]
  case unpiped => simpa [Machine.connected] using h.unpiped
  case pipe =>
    intro s
    simpa [Machine.connected] using h.pipe s
  case trace => simp [Machine.connected]

variable {m₀ : Machine κ} {between : List Io}

theorem Machine.Connected.joined (h : m₀.Connected E between m) (hearly : ∀ io ∈ m₀.trace, io.Early)
    (hon : ∀ io ∈ between, io.On .remote) (hleft : Io.accepted .remote between = left)
    : m.prepared.Joined E left := by
  have hremote := h.intact.alive.remote h.remote
  have hre : (m.upd .remote fun c => { c with re := true }).Intact E :=
    h.intact.upd hremote ⟨fun _ => rfl, fun _ => rfl, fun _ h => h⟩
  constructor
  case intact =>
    refine hre.upd ?_ ⟨fun _ => rfl, fun _ => rfl, fun _ h => h⟩
    simpa using h.intact.alive.client
  case remote => exact h.remote
  case connected =>
    intro s
    simpa [Machine.prepared] using h.connected s
  case flow =>
    intro s
    cases s <;> simp [Machine.prepared]
  case pipe =>
    intro s t ht
    simp [Machine.prepared, h.pipe s] at ht
  case trace =>
    refine .intro m₀.trace between [] ?_ hearly hon hleft (by simp)
    rw [List.append_nil]
    exact h.trace

theorem Machine.Connected.wp_preparePipe (h : m₀.Connected E between m)
    (hearly : ∀ io ∈ m₀.trace, io.Early) (hon : ∀ io ∈ between, io.On .remote)
    (hleft : Io.accepted .remote between = left)
    : wp preparePipe (fun _ m' => m₀.Follows m' ∧ m'.Joined E left ∧ (m'.conn .remote).piped = false) F
        m := by
  rw [Xsocks.wp_preparePipe h.intact.alive h.remote]
  refine ⟨?_, h.joined hearly hon hleft, ?_⟩
  . refine (h.follows.trans (Machine.follows_upd (s := .remote) ?_ ?_)).trans
      (Machine.follows_upd (s := .client) ?_ ?_)
    all_goals exact fun _ => rfl
  . simpa [Machine.prepared] using h.unpiped

theorem Machine.Connected.givenUp (h : m₀.Connected E between m) (hearly : ∀ io ∈ m₀.trace, io.Early)
    (hon : ∀ io ∈ between, io.On .remote) (left : List Byte)
    : Io.Story left m.trace := by
  refine .givenUp m₀.trace between h.trace hearly ?_
  exact fun io hio => (hon io hio).aside

theorem wp_deref_finished (h : m.Finished left) (hremote : m.remote = true)
    {α : Type} {x : TcpConn κ → Proc κ α} {Q : α → Machine κ → Prop} (hF : F .useAfterFree m)
    : wp (deref .remote >>= x) Q F m := by
  have hlive := (h.ended.dead .remote).live
  rw [wp_bind, deref, wp_bind, wp_get, if_neg (by simp [hremote]), if_pos hlive, wp_throw]
  exact hF

def Machine.Decided (m₀ : Machine κ) (E : Env κ) (left : List Byte) (m : Machine κ) : Prop :=
  m₀.Follows m
    ∧ ((m.Joined E left ∧ (m.conn .remote).piped = false) ∨ (m.Finished left ∧ m.remote = true))

theorem Machine.Connected.wp_tail (h : m₀.Connected E between m) (hearly : ∀ io ∈ m₀.trace, io.Early)
    (hon : ∀ io ∈ between, io.On .remote) (hleft : Io.accepted .remote between = left)
    : wp preparePipe (fun _ => m₀.Decided E left) F m := by
  apply wp_mono (h.wp_preparePipe hearly hon hleft)
  . exact fun _ m' hm' => ⟨hm'.1, .inl hm'.2⟩
  . exact fun _ _ hF => hF

theorem Machine.Connected.sent (h : m₀.Connected E [] m) (n : Int) (data : List Byte)
    : m₀.Connected E [.write .remote n, .send .remote data]
        ((m.log (.write .remote n)).sent .remote data) where
  follows := (h.follows.trans (Machine.follows_log (by simp))).trans (Machine.follows_sent data)
  intact := (h.intact.log (by simp)).sent _ _
  remote := h.remote
  connected := h.connected
  unpiped := h.unpiped
  pipe := h.pipe
  trace := by
    simp [Machine.sent, h.trace]

theorem Machine.Connected.written (h : m₀.Connected E between m)
    : m₀.Connected E between (m.upd .client fun c => { c with rbufOff := 0 }) where
  follows := h.follows.trans (Machine.follows_upd (fun _ => rfl) fun _ => rfl)
  intact := h.intact.upd h.intact.alive.client ⟨fun _ => rfl, fun _ => rfl, fun _ h => h⟩
  remote := h.remote
  connected s := by simpa using h.connected s
  unpiped := by simpa using h.unpiped
  pipe s := by simpa using h.pipe s
  trace := h.trace

theorem Machine.Connected.wp_writeLeft (h : m₀.Connected E [] m) (hearly : ∀ io ∈ m₀.trace, io.Early)
    (hraw : (m.conn .remote).proto = .raw)
    (hleft : (m.conn .client).rbuf.read 0 (m.conn .client).rbufOff = left)
    : wp (do let ok ← Server.writeLeft E; if ok then preparePipe) (fun _ => m₀.Decided E left) F m := by
  have hremote := h.intact.alive.remote h.remote
  rw [wp_bind, Server.writeLeft, wp_bind, wp_deref h.intact.alive.client]
  split
  . next hoff =>
    rw [wp_pure, if_pos rfl]
    apply h.wp_tail hearly (by simp)
    rw [← hleft, hoff, Mem.read_zero]
    rfl
  . next hoff =>
    generalize hn : (m.conn .client).rbufOff = n at *
    rw [hleft]
    have hon : ∀ data, ∀ io ∈ [Io.write .remote n, .send .remote data], io.On .remote := by
      intro data io hio
      simp only [List.mem_cons, List.not_mem_nil, or_false] at hio
      rcases hio with rfl | rfl
      . rfl
      . rfl
    rw [wp_bind, connWrite, wp_bind, wp_deref hremote, wp_bind, wp_logIo, hraw]
    dsimp only
    rw [wp_tcpWrite (by simpa using h.intact.alive) (by simpa using hremote)]
    dsimp only
    generalize (m.log (.write .remote n)).netWrite n = nwrite
    have hsent := h.sent n (left.take nwrite.toNat)
    have hstory := hsent.givenUp hearly (hon _) left
    split
    . have herr : (((m.log (.write .remote n)).sent .remote (left.take nwrite.toNat)).withErr .remote
          .TCP_ERROR_WRITE).Intact E := by
        refine hsent.intact.upd ?_ ⟨fun _ => rfl, fun _ => rfl, fun _ h => h⟩
        simpa using hremote
      rw [if_pos rfl, wp_pure, if_neg (by simp), wp_pure]
      refine ⟨(hsent.follows.trans Machine.follows_withErr).trans (Machine.follows_closed herr.alive _),
        .inr ⟨herr.finished_closed hstory _, ?_⟩⟩
      simpa [Machine.closed, Machine.withErr] using hsent.remote
    . next hne =>
      split
      . rw [wp_bind, wp_tcpConnectionFree hsent.intact.alive, wp_pure, if_neg (by simp), wp_pure]
        refine ⟨hsent.follows.trans (Machine.follows_freed hsent.intact.alive),
          .inr ⟨hsent.intact.finished_freed hstory, ?_⟩⟩
        simpa using hsent.remote
      . next hge =>
        have hlen : left.length = n := by
          rw [← hleft, Mem.length_read]
        have hall : left.take nwrite.toNat = left := List.take_of_length_le (by omega)
        rw [hall] at hsent ⊢
        rw [wp_bind, wp_assign (by simpa using hsent.intact.alive.client), wp_pure, if_pos rfl]
        apply hsent.written.wp_tail hearly (hon left)
        simp [Io.accepted, Io.dataOut]

theorem Machine.Dialling.wp_fireConnect (h : m.Dialling E left)
    : wp (fireConnect E .remote OK) (fun _ => m.Decided E left) F
        (m.upd .remote fun c => { c with connected := true, we := false }) := by
  have hremote := h.intact.alive.remote h.remote
  have hconnected := h.connected
  have hclient := hconnected.intact.alive.client
  unfold fireConnect
  dsimp only
  rw [wp_bind, wp_deref (by simpa using hremote), wp_bind, wp_logIo, ← Machine.connected]
  rw [tcpRemoteOnConnect, wp_bind, wp_deref (hconnected.intact.alive.remote hconnected.remote), wp_bind,
    wp_deref hclient, if_neg (by decide)]
  split
  . next happ =>
    apply hconnected.wp_writeLeft h.early (hconnected.intact.raw happ)
    simpa [Machine.connected] using h.left
  . next happ =>
    -- Nothing is left by the other programs.
    apply hconnected.wp_tail h.early (by simp)
    rw [← h.left, h.unleft happ, Mem.read_zero]
    rfl

theorem Machine.Dialling.refused (h : m.Dialling E left)
    : m.Ending left (((m.withErr .remote .TCP_ERROR_CONNECT).log (.onConnect .remote ERR)).closed
        .remote) := by
  have hremote := h.intact.alive.remote h.remote
  have hintact : ((m.withErr .remote .TCP_ERROR_CONNECT).log (.onConnect .remote ERR)).Intact E := by
    refine Machine.Intact.log ?_ (by simp)
    exact h.intact.upd hremote ⟨fun _ => rfl, fun _ => rfl, fun _ h => h⟩
  constructor
  . refine Machine.Follows.trans ?_ (Machine.follows_closed hintact.alive .remote)
    exact Machine.follows_withErr.trans (Machine.follows_log (by simp))
  . apply hintact.finished_closed
    exact .refused m.trace [] rfl h.early (by simp)

theorem Machine.Dialling.wp_write (h : m.Dialling E left)
    : wp (tcpConnWriteHandler E .remote) (fun _ m' => m.Follows m' ∧ m'.Engaged E left) (m.Broken left)
        m := by
  have hremote := h.intact.alive.remote h.remote
  rw [tcpConnWriteHandler, handleTcpConnection, wp_bind, wp_bind, wp_deref hremote, h.connecting,
    if_neg (by simp), wp_bind, wp_get]
  split
  . exact ⟨.refl, .inl h⟩
  . rw [wp_bind, wp_assign hremote, wp_bind]
    apply wp_mono h.wp_fireConnect
    . rintro _ m' ⟨hfollows, hm'⟩
      rw [wp_pure, if_neg (by simp)]
      rcases hm' with ⟨hjoined, hpiped⟩ | ⟨hfinished, hremote'⟩
      . rw [wp_bind, wp_deref (hjoined.usable .remote), hpiped, if_neg (by simp), fireWrite, wp_bind,
          wp_deref (hjoined.usable .remote)]
        exact ⟨hfollows, .inr (.inl hjoined)⟩
      . -- The handler goes on with a connection that has been freed.
        apply wp_deref_finished hfinished hremote'
        exact ⟨hfollows, hfinished.story, fun _ => hfinished.ended, fun hne => absurd rfl hne⟩
    . exact fun _ _ hF => hF
  . have halive : ((m.withErr .remote .TCP_ERROR_CONNECT).log (.onConnect .remote ERR)).Alive := by
      simpa using h.intact.alive
    have hremote' : ((m.withErr .remote .TCP_ERROR_CONNECT).log (.onConnect .remote ERR)).Usable .remote := by
      simpa using hremote
    have href := h.refused
    rw [wp_bind, wp_setErr hremote, wp_bind, fireConnect, wp_bind, wp_deref (by simpa using hremote),
      wp_bind, wp_logIo, tcpRemoteOnConnect, wp_bind, wp_deref hremote', wp_bind, wp_deref halive.client,
      if_pos rfl, wp_pure, wp_bind, wp_fireClose halive hremote', wp_pure, if_pos (by decide), wp_pure]
    exact ⟨href.1, .inr (.inr href.2)⟩

theorem Machine.Dialling.wp_handler (h : m.Dialling E left) (s : Side) (r : Ready)
    (hreg : (m.conn s).registered r = true)
    : wp (handler E s r) (fun _ m' => m.Follows m' ∧ m'.Engaged E left) (m.Broken left) m := by
  cases r with
  | read =>
    rw [TcpConn.registered, h.re s] at hreg
    contradiction
  | write =>
    cases s with
    | client =>
      rw [TcpConn.registered, h.weClient] at hreg
      contradiction
    | remote => exact h.wp_write
  | timeout =>
    have hs : m.Usable s := by
      cases s with
      | client => exact h.intact.alive.client
      | remote => exact h.intact.alive.remote h.remote
    apply wp_mono (h.intact.wp_timeout hs (.early h.early))
    . exact fun _ m' hm' => ⟨hm'.1, .inr (.inr hm'.2)⟩
    . exact fun _ _ hF => hF

end

end Xsocks
