import Xsocks.Event.Impl.Event

/-!
This module contains the events that are registered for a descriptor, as the callers of `eventAdd` and
`eventDel` see them, and which of them `aeProcessEvents` calls.
-/

namespace Xsocks.Ev

open Ae

/-- The events of a process, of which there is at most one for each descriptor and direction. -/
structure Events where
  event : Nat → Event
  reader : Int → Option Nat
  writer : Int → Option Nat
  reader_iff : ∀ fd i, reader fd = some i
    ↔ (event i).type = .io ∧ (event i).id = fd ∧ (event i).flags = EVENT_FLAG_READ
  writer_iff : ∀ fd i, writer fd = some i
    ↔ (event i).type = .io ∧ (event i).id = fd ∧ (event i).flags = EVENT_FLAG_WRITE
  flags : ∀ i, (event i).type = .io
    → (event i).flags = EVENT_FLAG_READ ∨ (event i).flags = EVENT_FLAG_WRITE

structure Registry where
  /-- The events that `eventAdd` takes for registered. -/
  el : Nat → Bool
  active : Nat → Bool
  last : Int → Option Nat

namespace Registry

def new : Registry where
  el := fun _ => false
  active := fun _ => false
  last := fun _ => none

def step (E : Events) (setsize : Int) (r : Registry) : Op → Registry
  | .add i o =>
    let e := E.event i
    if r.el i then r
    else if e.type = .io ∧ e.id < setsize ∧ o.api = true then
      {
        el := Function.update r.el i true
        active := Function.update r.active i true
        last := Function.update r.last e.id (some i)
      }
    else { r with el := Function.update r.el i true }
  | .del i =>
    if r.el i then
      { r with el := Function.update r.el i false, active := Function.update r.active i false }
    else r
  | .unlink _ => r

def on (r : Registry) (i : Option Nat) : Bool :=
  i.any r.active

def ran (E : Events) (setsize : Int) (handler : Nat → List Op) (r : Registry) (i : Option Nat)
    : Registry :=
  match i with
  | some i => (handler i).foldl (step E setsize) r
  | none => r

/--
The events whose handlers are due if `fd` is readable or writable. The handler of the first one may
delete the other.
-/
def due (E : Events) (setsize : Int) (handler : Nat → List Op) (r : Registry) (fd : Int)
    (readable writable : Bool)
    : List Nat :=
  if readable && r.on (E.reader fd) then
    let r := r.ran E setsize handler (E.reader fd)
    (E.reader fd).toList ++ if writable && r.on (E.writer fd) then (E.writer fd).toList else []
  else if writable && r.on (E.writer fd) then (E.writer fd).toList
  else []

/--
The event that is called first was registered last for the descriptor, and no other one is due after
it.
-/
def InOrder (E : Events) (setsize : Int) (handler : Nat → List Op) (r : Registry) (fd : Int)
    (readable writable : Bool)
    : Prop :=
  if readable && r.on (E.reader fd) then
    r.last fd = E.reader fd
      ∧ (writable && (r.ran E setsize handler (E.reader fd)).on (E.writer fd)) = false
  else if writable && r.on (E.writer fd) then r.last fd = E.writer fd
  else True

end Registry

def bits (readable writable : Bool) : BitVec 32 :=
  (if readable then AE_READABLE else 0) ||| (if writable then AE_WRITABLE else 0)

section

variable (a b c d : Bool)

theorem bits_barrier : bits a b &&& AE_BARRIER = 0 := by
  cases a <;> cases b <;> decide

theorem bits_readable : bits a b &&& bits c d &&& AE_READABLE ≠ 0 ↔ (c && a) = true := by
  cases a <;> cases b <;> cases c <;> cases d <;> decide

theorem bits_writable : bits a b &&& bits c d &&& AE_WRITABLE ≠ 0 ↔ (d && b) = true := by
  cases a <;> cases b <;> cases c <;> cases d <;> decide

theorem bits_or_readable : bits a b ||| AE_READABLE = bits true b := by
  cases a <;> cases b <;> decide

theorem bits_or_writable : bits a b ||| AE_WRITABLE = bits a true := by
  cases a <;> cases b <;> decide

theorem bits_and_not_readable : bits a b &&& ~~~AE_READABLE = bits false b := by
  cases a <;> cases b <;> decide

theorem bits_and_not_writable : bits a b &&& ~~~(AE_WRITABLE ||| AE_BARRIER) = bits a false := by
  cases a <;> cases b <;> decide

end

structure Represents (E : Events) (setsize fd : Int) (s : State) (r : Registry) : Prop where
  setsize_eq : s.loop.setsize = setsize
  el : ∀ i, (s.ctx i).el = r.el i
  ctx : ∀ i, (E.event i).type = .io → (s.ctx i).mask = (eventApiNewEvent (E.event i)).mask
  mask : (s.loop.events fd).mask = bits (r.on (E.reader fd)) (r.on (E.writer fd))
  rfileProc : r.on (E.reader fd) = true → (s.loop.events fd).rfileProc = some .eventIoHandler
  wfileProc : r.on (E.writer fd) = true → (s.loop.events fd).wfileProc = some .eventIoHandler
  clientData : (s.loop.events fd).clientData = r.last fd
  last : r.on (E.reader fd) = true ∨ r.on (E.writer fd) = true → (r.last fd).isSome = true
  size : r.on (E.reader fd) = true ∨ r.on (E.writer fd) = true → fd < setsize

section

variable {E : Events} {setsize fd : Int} {s : State} {r : Registry}

theorem represents_new : Represents E setsize fd (.new E.event setsize) .new where
  setsize_eq := rfl
  el _ := rfl
  ctx _ _ := rfl
  mask := by
    have hon : ∀ i, Registry.new.on i = false := by
      intro i
      cases i <;> rfl
    rw [hon, hon]
    rfl
  rfileProc h := by
    cases hi : E.reader fd <;> simp [hi, Registry.on, Registry.new] at h
  wfileProc h := by
    cases hi : E.writer fd <;> simp [hi, Registry.on, Registry.new] at h
  clientData := rfl
  last h := by
    cases hi : E.reader fd <;> cases hj : E.writer fd <;> simp [hi, hj, Registry.on, Registry.new] at h
  size h := by
    cases hi : E.reader fd <;> cases hj : E.writer fd <;> simp [hi, hj, Registry.on, Registry.new] at h

theorem on_congr {r r' : Registry} {i : Option Nat} (h : ∀ j, i = some j → r'.active j = r.active j)
    : r'.on i = r.on i := by
  cases i with
  | none => rfl
  | some i => exact h i rfl

theorem el_setEl (i j : Nat) (b : Bool) (h : (s.ctx j).el = r.el j)
    : ((s.setEl i b).ctx j).el = Function.update r.el i b j := by
  unfold State.setEl
  by_cases hij : j = i
  . subst hij
    simp
  . simp [hij, h]

theorem mask_setEl (i j : Nat) (b : Bool) : ((s.setEl i b).ctx j).mask = (s.ctx j).mask := by
  unfold State.setEl
  by_cases hij : j = i
  . subst hij
    simp
  . simp [hij]

theorem Represents.setEl (h : Represents E setsize fd s r) (i : Nat) (b : Bool)
    : Represents E setsize fd (s.setEl i b) { r with el := Function.update r.el i b } where
  setsize_eq := h.setsize_eq
  el j := el_setEl i j b (h.el j)
  ctx j hj := by
    rw [mask_setEl]
    exact h.ctx j hj
  mask := h.mask
  rfileProc := h.rfileProc
  wfileProc := h.wfileProc
  clientData := h.clientData
  last := h.last
  size := h.size

theorem Represents.setMask (h : Represents E setsize fd s r) {i : Nat} (htype : (E.event i).type ≠ .io)
    (mask : BitVec 32)
    : Represents E setsize fd (s.setMask i mask) r where
  setsize_eq := h.setsize_eq
  el j := by
    unfold State.setMask
    by_cases hij : j = i
    . subst hij
      simpa using h.el j
    . simpa [hij] using h.el j
  ctx j hj := by
    unfold State.setMask
    by_cases hij : j = i
    . rw [hij] at hj
      contradiction
    . simpa [hij] using h.ctx j hj
  mask := h.mask
  rfileProc := h.rfileProc
  wfileProc := h.wfileProc
  clientData := h.clientData
  last := h.last
  size := h.size

theorem Represents.other (h : Represents E setsize fd s r) {loop : Loop}
    (hsetsize : loop.setsize = s.loop.setsize) (hevents : loop.events fd = s.loop.events fd)
    {r' : Registry} (hel : r'.el = r.el) (hlast : r'.last fd = r.last fd)
    (hreader : r'.on (E.reader fd) = r.on (E.reader fd))
    (hwriter : r'.on (E.writer fd) = r.on (E.writer fd))
    : Represents E setsize fd { s with loop := loop } r' where
  setsize_eq := by
    rw [← h.setsize_eq]
    exact hsetsize
  el i := by
    rw [hel]
    exact h.el i
  ctx := h.ctx
  mask := by
    rw [hreader, hwriter, ← h.mask]
    exact congrArg FileEvent.mask hevents
  rfileProc hon := by
    rw [hreader] at hon
    rw [← h.rfileProc hon]
    exact congrArg FileEvent.rfileProc hevents
  wfileProc hon := by
    rw [hwriter] at hon
    rw [← h.wfileProc hon]
    exact congrArg FileEvent.wfileProc hevents
  clientData := by
    rw [hlast, ← h.clientData]
    exact congrArg FileEvent.clientData hevents
  last hon := by
    rw [hreader, hwriter] at hon
    rw [hlast]
    exact h.last hon
  size hon := by
    rw [hreader, hwriter] at hon
    exact h.size hon

theorem reader_ne {i j : Nat} (hne : (E.event i).id ≠ fd) (hj : E.reader fd = some j) : j ≠ i := by
  intro heq
  subst heq
  exact hne ((E.reader_iff fd j).mp hj).2.1

theorem writer_ne {i j : Nat} (hne : (E.event i).id ≠ fd) (hj : E.writer fd = some j) : j ≠ i := by
  intro heq
  subst heq
  exact hne ((E.writer_iff fd j).mp hj).2.1

theorem reader_ne_writer {i j : Nat} (hi : E.reader fd = some i) (hj : E.writer fd = some j) : j ≠ i := by
  intro heq
  subst heq
  have hread := ((E.reader_iff fd j).mp hi).2.2
  have hwrite := ((E.writer_iff fd j).mp hj).2.2
  rw [hread] at hwrite
  contradiction

theorem Represents.create (h : Represents E setsize fd s r) {i : Nat} (htype : (E.event i).type = .io)
    (hsize : (E.event i).id < setsize)
    : ∃ loop, aeCreateFileEvent s.loop (E.event i).id (s.ctx i).mask .eventIoHandler i true = some loop
        ∧ Represents E setsize fd { s with loop := loop }
            { r with
                active := Function.update r.active i true
                last := Function.update r.last (E.event i).id (some i) } := by
  have hsetsize := h.setsize_eq
  unfold aeCreateFileEvent
  rw [if_neg (by omega), if_neg (by simp)]
  refine ⟨_, rfl, ?_⟩
  by_cases hid : (E.event i).id = fd
  . rw [hid]
    -- The event is either the one for reading or the one for writing.
    rcases E.flags i htype with hflags | hflags
    . have hreader := (E.reader_iff fd i).mpr ⟨htype, hid, hflags⟩
      have hctx : (s.ctx i).mask = AE_READABLE := by
        rw [h.ctx i htype]
        simp [eventApiNewEvent, hflags]
      have hon : Registry.on { r with active := Function.update r.active i true } (E.reader fd)
          = true := by
        simp [Registry.on, hreader]
      have hoff : Registry.on { r with active := Function.update r.active i true } (E.writer fd)
          = r.on (E.writer fd) :=
        on_congr fun j hj => Function.update_of_ne (reader_ne_writer hreader hj) _ _
      constructor
      case setsize_eq => exact h.setsize_eq
      case el => exact h.el
      case ctx => exact h.ctx
      case mask =>
        dsimp only [Registry.on] at hon hoff ⊢
        rw [hon, hoff, Function.update_self, hctx, h.mask, bits_or_readable]
        rfl
      case rfileProc =>
        intro _
        simp [hctx, AE_READABLE]
      case wfileProc =>
        intro hw
        have := h.wfileProc (by rw [← hoff]; exact hw)
        simpa [hctx, AE_READABLE, AE_WRITABLE] using this
      case clientData => simp
      case last => simp
      case size => exact fun _ => by omega
    . have hwriter := (E.writer_iff fd i).mpr ⟨htype, hid, hflags⟩
      have hctx : (s.ctx i).mask = AE_WRITABLE := by
        rw [h.ctx i htype]
        simp [eventApiNewEvent, hflags, EVENT_FLAG_READ, EVENT_FLAG_WRITE]
      have hon : Registry.on { r with active := Function.update r.active i true } (E.writer fd)
          = true := by
        simp [Registry.on, hwriter]
      have hoff : Registry.on { r with active := Function.update r.active i true } (E.reader fd)
          = r.on (E.reader fd) :=
        on_congr fun j hj => Function.update_of_ne (reader_ne_writer hj hwriter).symm _ _
      constructor
      case setsize_eq => exact h.setsize_eq
      case el => exact h.el
      case ctx => exact h.ctx
      case mask =>
        dsimp only [Registry.on] at hon hoff ⊢
        rw [hon, hoff, Function.update_self, hctx, h.mask, bits_or_writable]
        rfl
      case rfileProc =>
        intro hr
        have := h.rfileProc (by rw [← hoff]; exact hr)
        simpa [hctx, AE_READABLE, AE_WRITABLE] using this
      case wfileProc =>
        intro _
        simp [hctx, AE_WRITABLE]
      case clientData => simp
      case last => simp
      case size => exact fun _ => by omega
  . apply h.other
    case hsetsize => rfl
    case hevents => exact Function.update_of_ne (Ne.symm hid) _ _
    case hel => rfl
    case hlast => exact Function.update_of_ne (Ne.symm hid) _ _
    case hreader => exact on_congr fun j hj => Function.update_of_ne (reader_ne hid hj) _ _
    case hwriter => exact on_congr fun j hj => Function.update_of_ne (writer_ne hid hj) _ _

theorem bits_eq_zero {a b : Bool} (h : bits a b = AE_NONE) : a = false ∧ b = false := by
  revert h
  cases a <;> cases b <;> decide

theorem Represents.off (h : Represents E setsize fd s r) {i : Nat} {loop : Loop}
    (hsetsize : loop.setsize = s.loop.setsize)
    (hfe : loop.events fd = { s.loop.events fd with mask := (loop.events fd).mask })
    (hmask : (loop.events fd).mask
      = bits (r.on (E.reader fd) && E.reader fd != some i) (r.on (E.writer fd) && E.writer fd != some i))
    : Represents E setsize fd { s with loop := loop }
        { r with active := Function.update r.active i false } := by
  have hon : ∀ o, Registry.on { r with active := Function.update r.active i false } o
      = (r.on o && o != some i) := by
    intro o
    cases o with
    | none => rfl
    | some j =>
      by_cases hj : j = i
      . simp [Registry.on, hj]
      . simp [Registry.on, hj]
  have hon' : ∀ o, Registry.on { r with active := Function.update r.active i false } o = true
      → r.on o = true := by
    intro o ho
    rw [hon, Bool.and_eq_true] at ho
    exact ho.1
  constructor
  case setsize_eq =>
    rw [← h.setsize_eq]
    exact hsetsize
  case el => exact h.el
  case ctx => exact h.ctx
  case mask =>
    rw [hon, hon]
    exact hmask
  case rfileProc =>
    intro ho
    dsimp only
    rw [hfe]
    exact h.rfileProc (hon' _ ho)
  case wfileProc =>
    intro ho
    dsimp only
    rw [hfe]
    exact h.wfileProc (hon' _ ho)
  case clientData =>
    dsimp only
    rw [hfe]
    exact h.clientData
  case last =>
    intro ho
    exact h.last (ho.imp (hon' _) (hon' _))
  case size =>
    intro ho
    exact h.size (ho.imp (hon' _) (hon' _))

theorem Represents.inactive (h : Represents E setsize fd s r) {i : Nat}
    (hreader : r.on (E.reader fd) = true → E.reader fd ≠ some i)
    (hwriter : r.on (E.writer fd) = true → E.writer fd ≠ some i)
    : Represents E setsize fd s { r with active := Function.update r.active i false } := by
  refine Represents.off h rfl rfl ?_
  rw [h.mask]
  congr 1
  . cases hr : r.on (E.reader fd) with
    | false => rfl
    | true => simpa using hreader hr
  . cases hw : r.on (E.writer fd) with
    | false => rfl
    | true => simpa using hwriter hw

theorem Represents.delete (h : Represents E setsize fd s r) {i : Nat} (htype : (E.event i).type = .io)
    : Represents E setsize fd
        { s with loop := aeDeleteFileEvent s.loop (E.event i).id (s.ctx i).mask }
        { r with active := Function.update r.active i false } := by
  have hsetsize := h.setsize_eq
  unfold aeDeleteFileEvent
  split
  . next hsize =>
    apply h.inactive
    . intro hon heq
      have := h.size (.inl hon)
      rw [((E.reader_iff fd i).mp heq).2.1] at hsize
      omega
    . intro hon heq
      have := h.size (.inr hon)
      rw [((E.writer_iff fd i).mp heq).2.1] at hsize
      omega
  . dsimp only
    by_cases hid : (E.event i).id = fd
    . rw [hid]
      split
      . next hnone =>
        rw [h.mask] at hnone
        obtain ⟨hreader, hwriter⟩ := bits_eq_zero hnone
        apply h.inactive
        . simp [hreader]
        . simp [hwriter]
      . -- The bit of the direction is cleared.
        rcases E.flags i htype with hflags | hflags
        . have hreader := (E.reader_iff fd i).mpr ⟨htype, hid, hflags⟩
          have hwriter : E.writer fd ≠ some i := fun hw => reader_ne_writer hreader hw rfl
          have hctx : (s.ctx i).mask = AE_READABLE := by
            rw [h.ctx i htype]
            simp [eventApiNewEvent, hflags]
          apply h.off
          . rfl
          . simp
          . dsimp only
            rw [Function.update_self, hctx, if_neg (by decide), h.mask, bits_and_not_readable, hreader,
              bne_self_eq_false, Bool.and_false, bne_iff_ne.mpr hwriter, Bool.and_true]
        . have hwriter := (E.writer_iff fd i).mpr ⟨htype, hid, hflags⟩
          have hreader : E.reader fd ≠ some i := fun hr => reader_ne_writer hr hwriter rfl
          have hctx : (s.ctx i).mask = AE_WRITABLE := by
            rw [h.ctx i htype]
            simp [eventApiNewEvent, hflags, EVENT_FLAG_READ, EVENT_FLAG_WRITE]
          apply h.off
          . rfl
          . simp
          . dsimp only
            rw [Function.update_self, hctx, if_pos (by decide), h.mask, bits_and_not_writable, hwriter,
              bne_self_eq_false, Bool.and_false, bne_iff_ne.mpr hreader, Bool.and_true]
    . have hreader : E.reader fd ≠ some i := fun hr => reader_ne hid hr rfl
      have hwriter : E.writer fd ≠ some i := fun hw => writer_ne hid hw rfl
      split
      . exact h.inactive (fun _ => hreader) (fun _ => hwriter)
      . apply h.off
        . rfl
        . dsimp only
          rw [Function.update_of_ne (Ne.symm hid)]
        . dsimp only
          rw [Function.update_of_ne (Ne.symm hid), h.mask, bne_iff_ne.mpr hreader,
            bne_iff_ne.mpr hwriter, Bool.and_true, Bool.and_true]

theorem Represents.inactive_of_type (h : Represents E setsize fd s r) {i : Nat}
    (htype : (E.event i).type ≠ .io)
    : Represents E setsize fd s { r with active := Function.update r.active i false } :=
  h.inactive (fun _ hr => htype ((E.reader_iff fd i).mp hr).1)
    (fun _ hw => htype ((E.writer_iff fd i).mp hw).1)

theorem Represents.apiAdd (h : Represents E setsize fd s r) (i : Nat) (o : Outcome)
    : Represents E setsize fd (eventApiAddEvent E.event s i o).2
        (if (E.event i).type = .io ∧ (E.event i).id < setsize ∧ o.api = true then
          { r with
              active := Function.update r.active i true
              last := Function.update r.last (E.event i).id (some i) }
        else r) := by
  unfold eventApiAddEvent
  dsimp only
  split
  . next htype =>
    by_cases hok : (E.event i).id < setsize ∧ o.api = true
    . obtain ⟨loop, heq, hloop⟩ := h.create htype hok.1
      rw [if_pos ⟨htype, hok⟩, hok.2, heq]
      exact hloop
    . have hnone : aeCreateFileEvent s.loop (E.event i).id (s.ctx i).mask .eventIoHandler i o.api
          = none := by
        have hsetsize := h.setsize_eq
        unfold aeCreateFileEvent
        split
        . rfl
        . rw [if_pos]
          by_contra hapi
          exact hok ⟨by omega, by simpa using hapi⟩
      rw [if_neg (fun hall => hok hall.2), hnone]
      exact h
  . next htype =>
    have hloop : Represents E setsize fd
        { s with loop := (aeCreateTimeEvent s.loop (E.event i).id i o.now).2 } r := by
      apply h.other <;> rfl
    have hne : (E.event i).type ≠ .io := by simp [htype]
    rw [if_neg (c := (E.event i).type = .io ∧ _) fun hall => hne hall.1]
    split
    . exact hloop.setMask hne _
    . exact hloop.setMask hne _
  . next htype =>
    have hne : (E.event i).type ≠ .io := by simp [htype]
    rw [if_neg (c := (E.event i).type = .io ∧ _) fun hall => hne hall.1]
    split
    . exact h
    . split
      . exact h
      . exact ⟨h.setsize_eq, h.el, h.ctx, h.mask, h.rfileProc, h.wfileProc, h.clientData, h.last, h.size⟩

theorem Represents.apiDel (h : Represents E setsize fd s r) (i : Nat)
    : Represents E setsize fd (eventApiDelEvent E.event s i)
        { r with active := Function.update r.active i false } := by
  unfold eventApiDelEvent
  dsimp only
  split
  . next htype => exact h.delete htype
  . next htype =>
    have hloop : Represents E setsize fd
        { s with loop := aeDeleteTimeEvent s.loop (s.ctx i).mask.toInt } r := by
      apply h.other <;> rfl
    exact hloop.inactive_of_type (by simp [htype])
  . next htype =>
    apply Represents.inactive_of_type _ (by simp [htype])
    exact ⟨h.setsize_eq, h.el, h.ctx, h.mask, h.rfileProc, h.wfileProc, h.clientData, h.last, h.size⟩

theorem Represents.step (h : Represents E setsize fd s r) (op : Op)
    : Represents E setsize fd (step E.event s op) (r.step E setsize op) := by
  cases op with
  | unlink k =>
    have hloop : ∀ el : Loop, (unlink el k).setsize = el.setsize ∧ (unlink el k).events = el.events := by
      intro el
      unfold Ae.unlink
      split
      . split <;> exact ⟨rfl, rfl⟩
      . exact ⟨rfl, rfl⟩
    apply h.other
    case hsetsize => exact (hloop _).1
    case hevents => exact congrFun (hloop _).2 fd
    all_goals rfl
  | add i o =>
    unfold Ev.step eventAdd Registry.step
    dsimp only
    rw [h.el i]
    by_cases hel : r.el i = true
    . rw [if_pos hel, if_pos hel]
      exact h
    . rw [if_neg hel, if_neg hel]
      have hadd := (h.setEl i true).apiAdd i o
      split
      . next hok =>
        rw [if_pos hok] at hadd
        exact hadd
      . next hok =>
        rw [if_neg hok] at hadd
        exact hadd
  | del i =>
    unfold Ev.step eventDel Registry.step
    dsimp only
    rw [h.el i]
    by_cases hel : r.el i = true
    . rw [if_pos hel, if_pos hel]
      exact (h.apiDel i).setEl i false
    . rw [if_neg hel, if_neg hel]
      exact h

theorem Represents.run (h : Represents E setsize fd s r) (ops : List Op)
    : Represents E setsize fd (ops.foldl (Ev.step E.event) s) (ops.foldl (Registry.step E setsize) r) := by
  induction ops generalizing s r with
  | nil => exact h
  | cons op ops ih => exact ih (h.step op)

def perform (E : Events) (handler : Nat → List Op) (i : Nat) (s : State) : State :=
  (handler i).foldl (step E.event) s

theorem Represents.call (h : Represents E setsize fd s r) (handler : Nat → List Op)
    (hon : r.on (E.reader fd) = true ∨ r.on (E.writer fd) = true)
    : ∃ i, r.last fd = some i ∧ call (perform E handler) s fd = ([i], perform E handler i s)
        ∧ Represents E setsize fd (perform E handler i s) (r.ran E setsize handler (some i)) := by
  obtain ⟨i, hi⟩ := Option.isSome_iff_exists.mp (h.last hon)
  refine ⟨i, hi, ?_, h.run (handler i)⟩
  unfold Ev.call
  rw [h.clientData, hi]

-- `aeDeleteFileEvent` leaves the handlers of the descriptor.
theorem rfileProc_step (event : Nat → Event) (op : Op)
    (h : (s.loop.events fd).rfileProc = some .eventIoHandler)
    : ((step event s op).loop.events fd).rfileProc = some .eventIoHandler := by
  cases op with
  | unlink k =>
    unfold Ev.step Ae.unlink
    dsimp only
    split
    . split <;> exact h
    . exact h
  | add i o =>
    unfold Ev.step eventAdd
    dsimp only
    split
    . exact h
    . unfold eventApiAddEvent
      dsimp only
      split
      . split
        . exact h
        . next loop heq =>
          unfold aeCreateFileEvent at heq
          split at heq
          . contradiction
          . split at heq
            . contradiction
            . cases heq
              by_cases hid : fd = (event i).id
              . subst hid
                simp only [Function.update_self]
                split
                . rfl
                . exact h
              . dsimp only
                rw [Function.update_of_ne hid]
                exact h
      . split <;> exact h
      . split
        . exact h
        . split <;> exact h
  | del i =>
    unfold Ev.step eventDel
    dsimp only
    split
    . unfold eventApiDelEvent
      dsimp only
      split
      . unfold State.setEl aeDeleteFileEvent
        dsimp only
        split
        . exact h
        . split
          . exact h
          . by_cases hid : fd = (event i).id
            . subst hid
              dsimp only
              rw [Function.update_self]
              exact h
            . dsimp only
              rw [Function.update_of_ne hid]
              exact h
      . exact h
      . exact h
    . exact h

theorem rfileProc_run (event : Nat → Event) (ops : List Op)
    (h : (s.loop.events fd).rfileProc = some .eventIoHandler)
    : ((ops.foldl (step event) s).loop.events fd).rfileProc = some .eventIoHandler := by
  induction ops generalizing s with
  | nil => exact h
  | cons op ops ih => exact ih (rfileProc_step event op h)

-- Both directions of a descriptor have the same `aeFileProc`.
theorem Represents.not_again (h : Represents E setsize fd s r) {i : Nat}
    (hreader : (s.loop.events fd).rfileProc = some .eventIoHandler)
    (hwriter : r.on (E.writer fd) = true)
    : aeProcessFired.again fd [i] s = false := by
  unfold aeProcessFired.again
  rw [h.wfileProc hwriter, hreader]
  rfl

section

variable (handler : Nat → List Op) {readable writable : Bool}

theorem Represents.no_barrier (h : Represents E setsize fd s r)
    : (s.loop.events fd).mask &&& AE_BARRIER = 0 := by
  rw [h.mask]
  exact bits_barrier _ _

theorem Represents.readable_iff (h : Represents E setsize fd s r)
    : (s.loop.events fd).mask &&& bits readable writable &&& AE_READABLE ≠ 0
      ↔ (readable && r.on (E.reader fd)) = true := by
  rw [h.mask]
  exact bits_readable _ _ _ _

theorem Represents.writable_iff (h : Represents E setsize fd s r)
    : (s.loop.events fd).mask &&& bits readable writable &&& AE_WRITABLE ≠ 0
      ↔ (writable && r.on (E.writer fd)) = true := by
  rw [h.mask]
  exact bits_writable _ _ _ _

-- The handler for reading comes first, and what it did is taken into account.
theorem Represents.processFired (h : Represents E setsize fd s r) (handler : Nat → State → State)
    (mask : BitVec 32) {fired : List Nat} {s' : State}
    (hfired : (if (s.loop.events fd).mask &&& mask &&& AE_READABLE ≠ 0 then Ev.call handler s fd
      else ([], s)) = (fired, s'))
    : (aeProcessFired handler s fd mask).1
      = if (s'.loop.events fd).mask &&& mask &&& AE_WRITABLE ≠ 0 ∧ aeProcessFired.again fd fired s' then
          fired ++ (Ev.call handler s' fd).1
        else fired := by
  unfold aeProcessFired
  simp only [h.no_barrier, ne_eq, not_true_eq_false, not_false_eq_true, true_and, false_and, if_false]
  simp only [ne_eq] at hfired
  rw [hfired]
  split <;> rfl

-- Only one handler is called, also if both directions are ready.
theorem Represents.fired_of_readable (h : Represents E setsize fd s r)
    (hon : (readable && r.on (E.reader fd)) = true)
    : (aeProcessFired (perform E handler) s fd (bits readable writable)).1 = (r.last fd).toList := by
  have hreader : r.on (E.reader fd) = true := (Bool.and_eq_true_iff.mp hon).2
  obtain ⟨i, hlast, hcall, hran⟩ := h.call handler (.inl hreader)
  have hproc := rfileProc_run E.event (handler i) (h.rfileProc hreader)
  rw [h.processFired _ _ (by rw [if_pos (h.readable_iff.mpr hon), hcall]), if_neg, hlast]
  . rfl
  . intro hagain
    have hwriter := (Bool.and_eq_true_iff.mp (hran.writable_iff.mp hagain.1)).2
    rw [hran.not_again hproc hwriter] at hagain
    exact Bool.false_ne_true hagain.2

theorem Represents.fired_of_writable (h : Represents E setsize fd s r)
    (hoff : ¬(readable && r.on (E.reader fd)) = true) (hon : (writable && r.on (E.writer fd)) = true)
    : (aeProcessFired (perform E handler) s fd (bits readable writable)).1 = (r.last fd).toList := by
  obtain ⟨i, hlast, hcall, -⟩ := h.call handler (.inr (Bool.and_eq_true_iff.mp hon).2)
  rw [h.processFired _ _ (by rw [if_neg (fun hread => hoff (h.readable_iff.mp hread))]),
    if_pos ⟨h.writable_iff.mpr hon, rfl⟩, hcall, hlast]
  rfl

theorem Represents.fired_of_neither (h : Represents E setsize fd s r)
    (hread : ¬(readable && r.on (E.reader fd)) = true) (hwrite : ¬(writable && r.on (E.writer fd)) = true)
    : (aeProcessFired (perform E handler) s fd (bits readable writable)).1 = [] := by
  rw [h.processFired _ _ (by rw [if_neg (fun hand => hread (h.readable_iff.mp hand))]),
    if_neg (fun hand => hwrite (h.writable_iff.mp hand.1))]

theorem toList_eq_append {o o' : Option Nat} {l : List Nat} (h : o'.isSome = true)
    : o.toList = o'.toList ++ l ↔ o = o' ∧ l = [] := by
  cases o <;> cases o' <;> simp_all

end

end

/--
The handlers that are called are those of the registered events for the ready directions if and only
if the event of the first ready direction was registered last and the other one is not due.
-/
theorem ae_dispatch_iff (E : Events) (setsize : Int) (handler : Nat → List Op) (ops : List Op) (fd : Int)
    (readable writable : Bool)
    : (aeProcessFired (perform E handler) (ops.foldl (step E.event) (.new E.event setsize)) fd
          (bits readable writable)).1
        = (ops.foldl (Registry.step E setsize) .new).due E setsize handler fd readable writable
      ↔ (ops.foldl (Registry.step E setsize) .new).InOrder E setsize handler fd readable writable := by
  have hnew : Represents E setsize fd (.new E.event setsize) .new := represents_new
  have h := hnew.run ops
  generalize ops.foldl (step E.event) (.new E.event setsize) = s at h
  generalize ops.foldl (Registry.step E setsize) .new = r at h
  unfold Registry.due Registry.InOrder
  split
  . next hread =>
    have hsome : (E.reader fd).isSome = true := by
      have hon := (Bool.and_eq_true_iff.mp hread).2
      cases hreader : E.reader fd with
      | none => simp [hreader, Registry.on] at hon
      | some i => rfl
    rw [h.fired_of_readable handler hread, toList_eq_append hsome]
    split
    . next hwrite =>
      have hne : E.writer fd ≠ none := by
        intro hnone
        simp [hnone, Registry.on] at hwrite
      simp [hwrite, Option.toList_eq_nil_iff, hne]
    . next hwrite => simp [hwrite]
  . next hread =>
    split
    . next hwrite =>
      have hsome : (E.writer fd).isSome = true := by
        have hon := (Bool.and_eq_true_iff.mp hwrite).2
        cases hwriter : E.writer fd with
        | none => simp [hwriter, Registry.on] at hon
        | some i => rfl
      rw [h.fired_of_writable handler hread hwrite]
      simpa using toList_eq_append (l := []) hsome
    . next hwrite => simp [h.fired_of_neither handler hread hwrite]

def connEvents : Events where
  event i :=
    if i = 0 then ⟨5, .io, EVENT_FLAG_READ⟩
    else if i = 1 then ⟨5, .io, EVENT_FLAG_WRITE⟩
    else ⟨1000, .time, EVENT_FLAG_READ⟩
  reader fd := if fd = 5 then some 0 else none
  writer fd := if fd = 5 then some 1 else none
  reader_iff fd i := by
    rcases i with _ | _ | i
    . simp [eq_comm]
    . simp [EVENT_FLAG_READ, EVENT_FLAG_WRITE]
    . simp
  writer_iff fd i := by
    rcases i with _ | _ | i
    . simp [EVENT_FLAG_READ, EVENT_FLAG_WRITE]
    . simp [eq_comm]
    . simp
  flags i h := by
    rcases i with _ | _ | i
    . exact .inl rfl
    . exact .inr rfl
    . simp at h

-- A short write has added the event for writing while the one for reading is registered.
theorem ae_dispatch_write_event
    : (aeProcessFired (perform connEvents fun _ => [])
          ([Op.add 0 {}, .add 1 {}].foldl (step connEvents.event) (.new connEvents.event 1024)) 5
          (bits true false)).1 = [1]
      ∧ ([Op.add 0 {}, .add 1 {}].foldl (Registry.step connEvents 1024) .new).due connEvents 1024
          (fun _ => []) 5 true false = [0] := by
  decide

end Xsocks.Ev
