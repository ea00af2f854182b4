import Mathlib.Data.List.Basic

/-!
This module contains the loop that calls something again and again, each time for what is left to be moved,
until everything has been moved or a call has moved nothing.
-/

namespace Drain

variable {σ ε α : Type}

structure Vars (σ ε : Type) where
  state : σ
  total : Nat
  calls : Nat
  last : Except ε Nat

/-- `call s m total n` is the call with the number `m`, which is asked to move `n` units from `total` on. -/
abbrev Call (σ ε : Type) := σ → (m total n : Nat) → Except ε {k : Nat // k ≤ n} × σ

def loop (call : Call σ ε) (len : Nat) (v : Vars σ ε) : Vars σ ε :=
  if v.total < len then
    match call v.state v.calls v.total (len - v.total) with
    | (.error e, s) => { v with state := s, calls := v.calls + 1, last := .error e }
    | (.ok k, s) =>
      if k.val = 0 then { v with state := s, calls := v.calls + 1, last := .ok 0 }
      else loop call len ⟨s, v.total + k, v.calls + 1, .ok k⟩
  else v
termination_by len - v.total

def Stops {n : Nat} (r : Except ε {k : Nat // k ≤ n}) : Prop :=
  ∀ k, r = .ok k → k.val = 0

def count {n : Nat} (r : Except ε {k : Nat // k ≤ n}) : Except ε Nat :=
  r.map Subtype.val

variable {call : Call σ ε} {len : Nat} {v : Vars σ ε}

inductive Ends (call : Call σ ε) (len : Nat) (v : Vars σ ε) : Vars σ ε → Prop where
  | full (le : len ≤ v.total) : Ends call len v v
  | stopped {r : Except ε {k : Nat // k ≤ len - v.total}} {s : σ} (lt : v.total < len)
      (eq : call v.state v.calls v.total (len - v.total) = (r, s)) (stops : Stops r)
      : Ends call len v { v with state := s, calls := v.calls + 1, last := count r }

theorem exists_ends {I : Vars σ ε → Prop}
    (hstep : ∀ v k s, I v → v.total < len → call v.state v.calls v.total (len - v.total) = (.ok k, s)
      → k.val ≠ 0 → I ⟨s, v.total + k, v.calls + 1, .ok k⟩)
    (h : I v)
    : ∃ w, I w ∧ Ends call len w (loop call len v) := by
  fun_induction loop call len v with
  | case1 v hlt e s heq =>
    refine ⟨v, h, .stopped hlt heq ?_⟩
    intro k hk
    contradiction
  | case2 v hlt k s heq hzero =>
    refine ⟨v, h, ?_⟩
    have hcount : (.ok 0 : Except ε Nat) = count (.ok k) := congrArg Except.ok hzero.symm
    rw [hcount]
    apply Ends.stopped hlt heq
    intro k' hk'
    rw [← Except.ok.inj hk']
    exact hzero
  | case3 v hlt k s heq hne ih => exact ih (hstep v k s h hlt heq hne)
  | case4 v hle => exact ⟨v, h, .full (by omega)⟩

/--
The first `m` calls have all moved something, `data` taken together. `moved m total n` is what the call with
the number `m` moves.
-/
inductive Leading (moved : (m total n : Nat) → Except ε (List α)) (len : Nat) : Nat → List α → Prop where
  | nil : Leading moved len 0 []
  | snoc {m : Nat} {data xs : List α} (leading : Leading moved len m data) (lt : data.length < len)
      (eq : moved m data.length (len - data.length) = .ok xs) (ne : xs ≠ [])
      : Leading moved len (m + 1) (data ++ xs)

variable {moved : (m total n : Nat) → Except ε (List α)} {m : Nat} {data : List α}

theorem Leading.le_length (h : Leading moved len m data) : m ≤ data.length := by
  induction h with
  | nil => exact Nat.le_refl _
  | snoc leading lt eq ne ih =>
    have := List.length_pos_iff.mpr ne
    rw [List.length_append]
    omega

theorem Leading.length_le
    (hmoved : ∀ m total n xs, moved m total n = .ok xs → xs.length ≤ n) (h : Leading moved len m data)
    : data.length ≤ len := by
  cases h with
  | nil => exact Nat.zero_le _
  | snoc leading lt eq ne =>
    have := hmoved _ _ _ _ eq
    rw [List.length_append]
    omega

inductive Ended (moved : (m total n : Nat) → Except ε (List α)) (len m : Nat) (data : List α)
    : Nat → Except ε Nat → Prop where
  | full (le : len ≤ data.length) (last : Except ε Nat) : Ended moved len m data m last
  | empty (lt : data.length < len) (eq : moved m data.length (len - data.length) = .ok [])
      : Ended moved len m data (m + 1) (.ok 0)
  | error {e : ε} (lt : data.length < len) (eq : moved m data.length (len - data.length) = .error e)
      : Ended moved len m data (m + 1) (.error e)

structure Tracks (call : Call σ ε) (moved : (m total n : Nat) → Except ε (List α)) (J : σ → List α → Prop)
    : Prop where
  ok : ∀ {s m data total n k s'}, call s m total n = (.ok k, s') → total = data.length → J s data
    → ∃ xs, moved m total n = .ok xs ∧ xs.length = k.val ∧ J s' (data ++ xs)
  error : ∀ {s m data total n e s'}, call s m total n = (.error e, s') → J s data
    → moved m total n = .error e ∧ J s' data

theorem Tracks.loop {J : σ → List α → Prop} (h : Tracks call moved J) (len : Nat) {s : σ} (hs : J s [])
    (last : Except ε Nat)
    : ∃ v m data, Drain.loop call len ⟨s, 0, 0, last⟩ = v ∧ Leading moved len m data ∧ J v.state data
        ∧ v.total = data.length ∧ Ended moved len m data v.calls v.last := by
  let I (v : Vars σ ε) : Prop := ∃ data, Leading moved len v.calls data ∧ J v.state data ∧ v.total = data.length
  have hstep : ∀ v k s, I v → v.total < len → call v.state v.calls v.total (len - v.total) = (.ok k, s)
      → k.val ≠ 0 → I ⟨s, v.total + k, v.calls + 1, .ok k⟩ := by
    intro v k s ⟨data, hleading, hJ, htotal⟩ hlt heq hne
    obtain ⟨xs, hxs, hlength, hJ'⟩ := h.ok heq htotal hJ
    rw [htotal] at hlt hxs
    refine ⟨data ++ xs, hleading.snoc hlt hxs ?_, hJ', ?_⟩
    . intro hnil
      rw [hnil] at hlength
      exact hne hlength.symm
    . rw [List.length_append, hlength]
      exact congrArg (· + k.val) htotal
  have hI : I ⟨s, 0, 0, last⟩ := ⟨[], .nil, hs, rfl⟩
  obtain ⟨w, ⟨data, hleading, hJ, htotal⟩, hends⟩ := exists_ends hstep hI
  refine ⟨_, w.calls, data, rfl, hleading, ?_⟩
  generalize Drain.loop call len ⟨s, 0, 0, last⟩ = v at hends
  cases hends with
  | full hle => exact ⟨hJ, htotal, .full (by omega) _⟩
  | @stopped r s' hlt heq hstops =>
    cases r with
    | error e =>
      obtain ⟨hmoved, hJ'⟩ := h.error heq hJ
      rw [htotal] at hlt hmoved
      exact ⟨hJ', htotal, .error hlt hmoved⟩
    | ok k =>
      have hzero := hstops k rfl
      obtain ⟨xs, hmoved, hlength, hJ'⟩ := h.ok heq htotal hJ
      have hnil : xs = [] := List.length_eq_zero_iff.mp (hlength.trans hzero)
      have hlast : (count (.ok k) : Except ε Nat) = .ok 0 := congrArg Except.ok hzero
      rw [htotal] at hlt hmoved
      rw [hnil] at hmoved hJ'
      rw [List.append_nil] at hJ'
      dsimp only
      rw [hlast]
      exact ⟨hJ', htotal, .empty hlt hmoved⟩

end Drain
