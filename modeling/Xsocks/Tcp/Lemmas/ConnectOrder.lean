import Xsocks.Tcp.Lemmas.Accounting

/-!
This module contains the order of what happens to a remote: it is connected, it gets what the handshake has
left for it, and only then it is piped.
-/

namespace Xsocks

open Wp Run

variable {κ : Type}

namespace Io

def connectStatus : Io → Option Int
  | onConnect _ status => some status
  | _ => none

def onConnects (trace : List Io) : List Int :=
  trace.filterMap connectStatus

variable {io : Io} {left : List Byte} {tr ios : List Io}

theorem Later.connectStatus (h : io.Later) : io.connectStatus = none := by
  cases io <;> trivial

theorem onConnects_later (h : ∀ io ∈ tr, io.Later) : onConnects tr = [] := by
  unfold onConnects
  rw [List.filterMap_eq_nil_iff]
  exact fun io hio => (h io hio).connectStatus

theorem Early.later (h : io.Early) : io.Later :=
  h.aside.later

theorem accepted_early (h : ∀ io ∈ tr, io.Early) : accepted .remote tr = [] := by
  unfold accepted
  rw [List.flatMap_eq_nil_iff]
  intro io hio
  have := h io hio
  cases io <;> simp_all [dataOut, Early]

theorem received_early (h : ∀ io ∈ tr, io.Early) : received .remote tr = [] := by
  unfold received
  rw [List.flatMap_eq_nil_iff]
  intro io hio
  have := h io hio
  cases io <;> simp_all [dataIn, Early]

theorem Story.onConnects_le (h : Story left tr) : (onConnects tr).length ≤ 1 := by
  have hcons : ∀ before after : List Io, ∀ status, (∀ io ∈ before, io.Later) → (∀ io ∈ after, io.Later)
      → (onConnects (before ++ .onConnect .remote status :: after)).length ≤ 1 := by
    intro before after status hbefore hafter
    have hb := onConnects_later hbefore
    have ha := onConnects_later hafter
    unfold onConnects at *
    rw [List.filterMap_append, hb, List.filterMap_cons, ha]
    simp [connectStatus]
  cases h with
  | early h =>
    rw [onConnects_later fun io hio => (h io hio).later]
    simp
  | refused before after eq before_early after_early =>
    rw [eq]
    exact hcons before after _ (fun io hio => (before_early io hio).later) fun io hio =>
      (after_early io hio).later
  | givenUp before after eq early aside =>
    rw [eq]
    exact hcons before after _ (fun io hio => (early io hio).later) fun io hio => (aside io hio).later
  | joined h =>
    obtain ⟨before, between, after, eq, early, on, accepted, later⟩ := h
    rw [eq]
    refine hcons before _ _ (fun io hio => (early io hio).later) ?_
    exact forall_mem_append (fun io hio => (on io hio).aside.later) later

theorem prefix_of_append_eq {tr₁ tr₂ rest : List Io} {x : Io} (h : ios ++ rest = tr₁ ++ x :: tr₂)
    (hx : x ∉ ios)
    : ios <+: tr₁ := by
  rcases List.append_eq_append_iff.mp h with ⟨as, hl, -⟩ | ⟨as, hl, hr⟩
  . rw [hl]
    exact List.prefix_append _ _
  . cases as with
    | nil =>
      rw [hl, List.append_nil]
    | cons a as =>
      rw [List.cons_append, List.cons.injEq] at hr
      refine absurd ?_ hx
      rw [hl, hr.1]
      simp

theorem Story.of_pipe (h : Story left tr) {tr₁ tr₂ : List Io} {a b : Side}
    (htr : tr = tr₁ ++ .pipe a b :: tr₂)
    : .onConnect .remote OK ∈ tr₁ ∧ left <+: accepted .remote tr₁ := by
  have hmem : .pipe a b ∈ tr := by
    rw [htr]
    simp
  cases h with
  | early h => exact (h _ hmem).elim
  | refused before after eq before_early after_early =>
    rw [eq, List.mem_append, List.mem_cons] at hmem
    rcases hmem with hmem | hmem | hmem
    . exact (before_early _ hmem).elim
    . contradiction
    . exact (after_early _ hmem).elim
  | givenUp before after eq early aside =>
    rw [eq, List.mem_append, List.mem_cons] at hmem
    rcases hmem with hmem | hmem | hmem
    . exact (early _ hmem).elim
    . contradiction
    . exact (aside _ hmem).elim
  | joined h =>
    obtain ⟨before, between, after, eq, early, on, haccepted, later⟩ := h
    have hnot : .pipe a b ∉ before ++ .onConnect .remote OK :: between := by
      rw [List.mem_append, List.mem_cons]
      rintro (hmem | hmem | hmem)
      . exact early _ hmem
      . contradiction
      . exact on _ hmem
    have heq : (before ++ .onConnect .remote OK :: between) ++ after = tr₁ ++ .pipe a b :: tr₂ := by
      rw [← htr, eq, List.append_assoc, List.cons_append]
    obtain ⟨rest, hrest⟩ := prefix_of_append_eq heq hnot
    rw [← hrest]
    constructor
    . simp
    . refine ⟨accepted .remote rest, ?_⟩
      have hcons : accepted .remote (.onConnect .remote OK :: between) = left := haccepted
      rw [accepted_append, accepted_append, accepted_early early, hcons, List.nil_append]

theorem Story.of_refused (h : Story left tr) (hmem : .onConnect .remote ERR ∈ tr)
    : (∀ a b, .pipe a b ∉ tr) ∧ accepted .remote tr = [] ∧ received .remote tr = [] := by
  cases h with
  | early h => exact (h _ hmem).elim
  | refused before after eq before_early after_early =>
    rw [eq]
    refine ⟨?_, ?_, ?_⟩
    . intro a b hmem
      rw [List.mem_append, List.mem_cons] at hmem
      rcases hmem with hmem | hmem | hmem
      . exact before_early _ hmem
      . contradiction
      . exact after_early _ hmem
    . have hafter := accepted_early after_early
      have hcons : accepted .remote (.onConnect .remote ERR :: after) = [] := hafter
      rw [accepted_append, accepted_early before_early, hcons, List.nil_append]
    . have hafter := received_early after_early
      have hcons : received .remote (.onConnect .remote ERR :: after) = [] := hafter
      rw [received_append, received_early before_early, hcons, List.nil_append]
  | givenUp before after eq early aside =>
    rw [eq, List.mem_append, List.mem_cons] at hmem
    rcases hmem with hmem | hmem | hmem
    . exact (early _ hmem).elim
    . simp [OK, ERR] at hmem
    . exact (aside _ hmem).elim
  | joined h => exact absurd hmem h.not_refused

end Io

theorem Machine.Engaged.story {E : Env κ} {left : List Byte} {m : Machine κ} (h : m.Engaged E left)
    : Io.Story left m.trace := by
  rcases h with h | h | h
  . exact .early h.early
  . exact .joined h.trace
  . exact h.story

theorem Machine.Phase.exists_story {E : Env κ} {m : Machine κ} (h : m.Phase E)
    : ∃ left, Io.Story left m.trace := by
  rcases h with h | ⟨left, h⟩
  . exact ⟨[], .early h.early⟩
  . exact ⟨left, h.story⟩

namespace TcpServer

variable {E : Env κ} {srv : TcpServer κ} {i j : Nat} {left : List Byte}

def Engages (E : Env κ) (i : Nat) (left : List Byte) (srv : TcpServer κ) : Prop :=
  ∃ p, srv.pairs[i]? = some p
    ∧ ((∃ inp, (srv.machine p inp).Engaged E left) ∨ (srv.crashed = true ∧ Io.Story left p.trace))

theorem Engages.exec_of_ne (h : srv.Engages E i left) (hcrashed : srv.crashed = false) (hne : j ≠ i)
    (x : Proc κ Unit) (inp : Inputs κ)
    : (srv.exec j x inp).Engages E i left := by
  obtain ⟨p, hp, hp'⟩ := h
  simp only [hcrashed, Bool.false_eq_true, false_and, or_false] at hp'
  obtain ⟨inp', hp'⟩ := hp'
  unfold TcpServer.exec
  split
  . exact ⟨p, hp, .inl ⟨inp', hp'⟩⟩
  . split
    . refine ⟨p, ?_, .inl ⟨inp', engaged_machine hp' _ _⟩⟩
      rw [TcpServer.store, List.getElem?_set_ne hne]
      exact hp
    . refine ⟨p, ?_, .inl ⟨inp', engaged_machine hp' _ _⟩⟩
      rw [TcpServer.fault, TcpServer.store, List.getElem?_set_ne hne]
      exact hp

theorem Engages.exec_handler {p : Pair κ} (hp : srv.pairs[i]? = some p) {inp : Inputs κ}
    (h : (srv.machine p inp).Engaged E left) {s : Side} {r : Ready} (hreg : (p.conn s).registered r = true)
    : (srv.exec i (handler E s r) inp).Engages E i left := by
  have hlt : i < srv.pairs.length := (List.getElem?_eq_some_iff.mp hp).1
  have hx := h.wp_handler s r hreg
  unfold TcpServer.exec
  rw [hp]
  dsimp only
  rw [wp] at hx
  split at hx
  . next m hm =>
    rw [hm]
    refine ⟨⟨m.conn, m.remote, m.trace⟩, List.getElem?_set_self hlt, .inl ⟨m.inp, ?_⟩⟩
    exact hx.2
  . next f m hm =>
    rw [hm]
    refine ⟨⟨m.conn, m.remote, m.trace⟩, List.getElem?_set_self hlt, ?_⟩
    by_cases hf : f = .useAfterFree
    . have hfinished : m.Finished left := ⟨hx.ended hf, hx.story⟩
      exact .inl ⟨m.inp, .inr (.inr ⟨⟨hfinished.ended.dead, hfinished.ended.lost, hfinished.ended.closes⟩,
        hfinished.story⟩)⟩
    . exact .inr ⟨by simp [TcpServer.fault, hf], hx.story⟩

theorem Engages.step (h : srv.Engages E i left) (a : Event × Inputs κ) : (srv.step E a).Engages E i left := by
  unfold TcpServer.step
  split
  . exact h
  . next hcrashed =>
    have hcrashed : srv.crashed = false := by simpa using hcrashed
    obtain ⟨p, hp, hp'⟩ := h
    simp only [hcrashed, Bool.false_eq_true, false_and, or_false] at hp'
    obtain ⟨inp, hp'⟩ := hp'
    have hlt : i < srv.pairs.length := (List.getElem?_eq_some_iff.mp hp).1
    split
    . have hadd : Engages E i left { srv with pairs := srv.pairs ++ [Pair.absent] } := by
        refine ⟨p, ?_, .inl ⟨inp, engaged_machine hp' _ _⟩⟩
        rw [List.getElem?_append_left hlt]
        exact hp
      exact hadd.exec_of_ne hcrashed (Nat.ne_of_gt hlt) _ _
    . next j s r hevent =>
      split
      . exact ⟨p, hp, .inl ⟨inp, hp'⟩⟩
      . next p' hj =>
        split
        . next hreg =>
          by_cases hji : j = i
          . subst hji
            rw [hp, Option.some.injEq] at hj
            subst hj
            exact Engages.exec_handler hp (engaged_machine hp' srv a.2) hreg
          . exact Engages.exec_of_ne ⟨p, hp, .inl ⟨inp, hp'⟩⟩ hcrashed hji _ _
        . exact ⟨p, hp, .inl ⟨inp, hp'⟩⟩

theorem Engages.run {as : List (Event × Inputs κ)} (h : srv.Engages E i left) {srv' : TcpServer κ}
    (hrun : Run.run (TcpServer.next E) srv as = .ok srv')
    : srv'.Engages E i left := by
  refine invariant_run (C := fun _ _ => True) ?_ h (along_true _ _ as) hrun
  intro srv a srv' h _ heq
  rw [TcpServer.next, Except.ok.injEq] at heq
  rw [← heq]
  exact h.step a

theorem Engages.exists_story (h : srv.Engages E i left)
    : ∃ p, srv.pairs[i]? = some p ∧ Io.Story left p.trace := by
  obtain ⟨p, hp, ⟨inp, h⟩ | ⟨-, h⟩⟩ := h
  . exact ⟨p, hp, h.story⟩
  . exact ⟨p, hp, h⟩

theorem Orderly.exists_story (h : srv.Orderly E) {p : Pair κ} (hp : p ∈ srv.pairs)
    : ∃ left, Io.Story left p.trace := by
  rcases h.phase p hp with ⟨inp, h⟩ | ⟨-, left, h, -⟩
  . exact h.exists_story
  . exact ⟨left, h⟩

end TcpServer

namespace Pair

def dialling (p : Pair κ) : Bool :=
  p.linked && !(p.conn .remote).connected

def left (p : Pair κ) : List Byte :=
  (p.conn .client).rbuf.read 0 (p.conn .client).rbufOff

end Pair

section

variable {E : Env κ} {srv : TcpServer κ} {p : Pair κ}

theorem Machine.Phase.dead_of_refused {m : Machine κ} (h : m.Phase E)
    (hmem : .onConnect .remote ERR ∈ m.trace)
    : m.Dead := by
  rcases h with h | ⟨left, h | h | h⟩
  . exact (h.early _ hmem).elim
  . exact (h.early _ hmem).elim
  . exact absurd hmem h.trace.not_refused
  . exact h.ended.dead

theorem TcpServer.Orderly.dead_of_refused (h : srv.Orderly E) (hp : p ∈ srv.pairs)
    (hmem : .onConnect .remote ERR ∈ p.trace) (s : Side)
    : (p.conn s).live = false := by
  rcases h.phase p hp with ⟨inp, h⟩ | ⟨-, left, -, hnot⟩
  . exact (h.dead_of_refused hmem s).live
  . contradiction

theorem TcpServer.Orderly.engages (h : srv.Orderly E) (hcrashed : srv.crashed = false) {i : Nat}
    (hp : srv.pairs[i]? = some p) (hdialling : p.dialling = true)
    : srv.Engages E i p.left := by
  obtain ⟨inp, hphase⟩ := h.phase_of_running hcrashed (List.mem_of_getElem? hp)
  simp only [Pair.dialling, Pair.linked, Pair.live, Bool.and_eq_true, Bool.not_eq_true'] at hdialling
  obtain ⟨⟨hlive, hremote⟩, hconnected⟩ := hdialling
  refine ⟨p, hp, .inl ⟨inp, ?_⟩⟩
  rcases hphase with h | ⟨left, h | h | h⟩
  . have hnone := h.remote
    rw [TcpServer.machine, hremote] at hnone
    contradiction
  . have hleft : p.left = left := h.left
    rw [hleft]
    exact .inl h
  . have hconn := h.connected .remote
    rw [TcpServer.machine, hconnected] at hconn
    contradiction
  . have hdead := (h.ended.dead .client).live
    rw [TcpServer.machine, hlive] at hdead
    contradiction

end

/--
In every run of a server `onConnect` is called at most once for each remote, nothing is piped before it was
called with `TCP_OK`, and if it was called with `TCP_ERR`, then the pair has been freed and no byte was
relayed. If the remote of the client `i` is being connected, then what the handshake has left in the buffer
of the client will have been accepted by the remote before anything is piped to it.
-/
theorem connect_before_relay {E : Env κ} {as bs : List (Event × Inputs κ)} {srv srv' : TcpServer κ}
    (hrun : run (TcpServer.next E) .new as = .ok srv) (hrun' : run (TcpServer.next E) srv bs = .ok srv')
    : (∀ p ∈ srv.pairs,
        (Io.onConnects p.trace).length ≤ 1
          ∧ (∀ tr₁ tr₂ a b, p.trace = tr₁ ++ .pipe a b :: tr₂ → .onConnect .remote OK ∈ tr₁)
          ∧ (.onConnect .remote ERR ∈ p.trace
              → (∀ s, (p.conn s).live = false) ∧ (∀ a b, .pipe a b ∉ p.trace)
                ∧ Io.accepted .remote p.trace = [] ∧ Io.received .remote p.trace = []))
        ∧ ∀ (i : Nat) (p p' : Pair κ), srv.pairs[i]? = some p → srv'.pairs[i]? = some p' → srv.crashed = false
          → p.dialling = true
          → ∀ tr₁ tr₂, p'.trace = tr₁ ++ .pipe .client .remote :: tr₂
            → p.left <+: Io.accepted .remote tr₁ := by
  have h := TcpServer.orderly_run hrun
  constructor
  . intro p hp
    obtain ⟨left, hstory⟩ := h.exists_story hp
    refine ⟨hstory.onConnects_le, fun tr₁ tr₂ a b htr => (hstory.of_pipe htr).1, ?_⟩
    exact fun hmem => ⟨h.dead_of_refused hp hmem, hstory.of_refused hmem⟩
  . intro i p p' hp hp' hcrashed hdialling tr₁ tr₂ htr
    obtain ⟨q, hq, hstory⟩ := ((h.engages hcrashed hp hdialling).run hrun').exists_story
    rw [hp', Option.some.injEq] at hq
    subst hq
    exact (hstory.of_pipe htr).2

theorem connect_before_relay_piped
    : let E : Env Unit := .default .xsServer .copy .text
      let as := (connectEvents 2).take 2
      let bs := (connectEvents 2).drop 2
        ++ [(.ready 0 .client .read, { Inputs.idle () with reads := [[.data [7]]], writes := [[.count 1]] })]
      ∃ srv srv' p p', run (TcpServer.next E) .new as = .ok srv ∧ run (TcpServer.next E) srv bs = .ok srv'
        ∧ srv.pairs[0]? = some p ∧ srv'.pairs[0]? = some p' ∧ p.left = [9, 9]
        ∧ .pipe .client .remote ∈ p'.trace
        ∧ ∀ tr₁ tr₂, p'.trace = tr₁ ++ .pipe .client .remote :: tr₂ → p.left <+: Io.accepted .remote tr₁ := by
  intro E as bs
  obtain ⟨srv, hrun, hcrashed, hpairs, hnext⟩ := exists_ok_of_eval
    (r := run (TcpServer.next E) .new as)
    (fun srv => srv.crashed = false ∧ srv.pairs.map (fun p => (p.dialling, p.left)) = [(true, [9, 9])]
      ∧ (match run (TcpServer.next E) srv bs with
        | .ok srv' => decide (srv'.pairs.map (fun p => p.trace.contains (.pipe .client .remote)) = [true])
        | .error _ => false) = true)
    (by decide +kernel)
  obtain ⟨srv', hrun', hpairs'⟩ := exists_ok_of_eval
    (r := run (TcpServer.next E) srv bs)
    (fun srv' => srv'.pairs.map (fun p => p.trace.contains (.pipe .client .remote)) = [true]) hnext
  obtain ⟨p, hp, hleft⟩ := List.map_eq_singleton_iff.mp hpairs
  obtain ⟨p', hp', hpipe⟩ := List.map_eq_singleton_iff.mp hpairs'
  rw [Prod.mk.injEq] at hleft
  have hp₀ : srv.pairs[0]? = some p := by simp [hp]
  have hp₀' : srv'.pairs[0]? = some p' := by simp [hp']
  refine ⟨srv, srv', p, p', hrun, hrun', hp₀, hp₀', hleft.2, by simpa using hpipe, ?_⟩
  exact (connect_before_relay hrun hrun').2 0 p p' hp₀ hp₀' hcrashed hleft.1

end Xsocks
