import Mathlib.Data.List.Infix
import Xsocks.Protocol.Impl.PpBloom

/-!
This module contains what the two filters of `ppbloom.c` hold after any number of calls: what has been added lately
is found, and no filter is ever asked to hold more than it was made for.
-/

namespace Xsocks

namespace BloomLib

variable {B : BloomLib}

def addAll (bloom : B.Bloom) (xs : List (List Byte)) : B.Bloom :=
  xs.foldl B.bloomAdd bloom

theorem check_addAll {bloom : B.Bloom} {xs : List (List Byte)} {x : List Byte}
    (h : B.bloomCheck bloom x = true ∨ x ∈ xs)
    : B.bloomCheck (addAll bloom xs) x = true := by
  induction xs generalizing bloom with
  | nil => simpa [addAll] using h
  | cons y ys ih =>
    apply ih
    rcases h with h | h
    . exact .inl (B.check_add bloom x y h)
    . rcases List.mem_cons.mp h with rfl | h
      . exact .inl (B.check_add_self bloom x)
      . exact .inr h

theorem addAll_concat (bloom : B.Bloom) (xs : List (List Byte)) (x : List Byte)
    : addAll bloom (xs ++ [x]) = B.bloomAdd (addAll bloom xs) x := by
  rw [addAll, List.foldl_append]
  rfl

def list : BloomLib where
  Bloom := List (List Byte)
  Rate := Unit
  bloomInit _ _ := some []
  bloomCheck bloom buffer := buffer ∈ bloom
  bloomAdd bloom buffer := buffer :: bloom
  check_add_self _ _ := decide_eq_true List.mem_cons_self
  check_add _ _ _ h := decide_eq_true (List.mem_cons_of_mem _ (of_decide_eq_true h))

end BloomLib

namespace PpBloom

open BloomLib

variable {B : BloomLib} {f f' : PpBloom B} {fresh : B.Bloom} {xs old new : List (List Byte)} {n : Nat} {e : B.Rate}

/--
Of what has been added, `xs`, the current filter holds `new` and the other one holds `old`. Only a filter that is full
is put aside.
-/
structure Retains (f : PpBloom B) (fresh : B.Bloom) (xs old new : List (List Byte)) : Prop where
  init : B.bloomInit f.entries f.error = some fresh
  pos : 0 < f.entries
  suffix : old ++ new <:+ xs
  current : f.ppbloom f.current = some (addAll fresh new)
  other : f.ppbloom f.current.other = some (addAll fresh old)
  count : f.bloomCount f.current = new.length
  count_other : f.bloomCount f.current.other = 0
  room : new.length < f.entries
  full : old.length = f.entries ∨ old = [] ∧ new = xs

@[simp]
theorem other_other (p : PingPong) : p.other.other = p := by
  cases p <;> rfl

theorem other_ne (p : PingPong) : p.other ≠ p := by
  cases p <;> decide

theorem retains_init (h : ppbloomInit n e = some f) (hn : 2 ≤ n)
    : ∃ fresh, B.bloomInit (n / 2) e = some fresh ∧ f.Retains fresh [] [] [] ∧ f.entries = n / 2 := by
  unfold ppbloomInit at h
  dsimp only at h
  split at h
  . contradiction
  . next fresh hfresh =>
    dsimp only at h
    have hf := Option.some.inj h
    subst hf
    refine ⟨fresh, hfresh, ?_, rfl⟩
    constructor
    case init => exact hfresh
    case pos =>
      change 0 < n / 2
      omega
    case suffix => exact List.suffix_refl []
    case current => rfl
    case other => rfl
    case count => rfl
    case count_other => rfl
    case room =>
      change 0 < n / 2
      omega
    case full => exact .inr ⟨rfl, rfl⟩

theorem Retains.add (h : f.Retains fresh xs old new) (x : List Byte)
    : ∃ old' new', (f.add x).Retains fresh (xs ++ [x]) old' new' ∧ (f.add x).entries = f.entries := by
  have hsuffix : old ++ (new ++ [x]) <:+ xs ++ [x] := by
    obtain ⟨front, hfront⟩ := h.suffix
    exact ⟨front, by rw [← hfront, List.append_assoc, List.append_assoc]⟩
  have hne := other_ne f.current
  have hroom := h.room
  unfold PpBloom.add ppbloomAdd
  rw [h.current]
  dsimp only
  split
  . next hfull =>
    rw [Function.update_self, h.count] at hfull
    refine ⟨new ++ [x], [], ?_, rfl⟩
    constructor
    case init => exact h.init
    case pos => exact h.pos
    case suffix =>
      rw [List.append_nil]
      exact (List.suffix_append old _).trans hsuffix
    case current =>
      dsimp only
      rw [Function.update_self, h.init]
      rfl
    case other =>
      dsimp only
      rw [other_other, Function.update_of_ne hne.symm, Function.update_self, addAll_concat]
    case count =>
      dsimp only
      rw [Function.update_of_ne hne, Function.update_of_ne hne, h.count_other]
      rfl
    case count_other =>
      dsimp only
      rw [other_other, Function.update_self]
    case room => exact h.pos
    case full =>
      left
      dsimp only
      rw [List.length_append, List.length_singleton]
      omega
  . next hroom' =>
    rw [Function.update_self, h.count] at hroom'
    refine ⟨old, new ++ [x], ?_, rfl⟩
    constructor
    case init => exact h.init
    case pos => exact h.pos
    case suffix => exact hsuffix
    case current =>
      dsimp only
      rw [Function.update_self, addAll_concat]
    case other =>
      dsimp only
      rw [Function.update_of_ne hne, h.other]
    case count =>
      dsimp only
      rw [Function.update_self, h.count, List.length_append, List.length_singleton]
    case count_other =>
      dsimp only
      rw [Function.update_of_ne hne, h.count_other]
    case room =>
      dsimp only
      rw [List.length_append, List.length_singleton]
      omega
    case full =>
      rcases h.full with hfull | ⟨hold, hnew⟩
      . exact .inl hfull
      . exact .inr ⟨hold, by rw [hnew]⟩

theorem Retains.check (h : f.Retains fresh xs old new) (x : List Byte)
    : f.ppbloomCheck x
      = if B.bloomCheck (addAll fresh old) x = true ∨ B.bloomCheck (addAll fresh new) x = true then 1 else 0 := by
  have hcurrent := h.current
  have hother := h.other
  unfold ppbloomCheck
  dsimp only
  cases hf : f.current with
  | PING =>
    rw [hf] at hcurrent hother
    change f.ppbloom .PONG = _ at hother
    rw [hcurrent, hother, bloomCheck, bloomCheck]
    cases B.bloomCheck (addAll fresh old) x <;> cases B.bloomCheck (addAll fresh new) x <;> rfl
  | PONG =>
    rw [hf] at hcurrent hother
    change f.ppbloom .PING = _ at hother
    rw [hcurrent, hother, bloomCheck, bloomCheck]
    cases B.bloomCheck (addAll fresh old) x <;> cases B.bloomCheck (addAll fresh new) x <;> rfl

theorem Retains.mem_recent (h : f.Retains fresh xs old new) {x : List Byte}
    (hx : x ∈ xs.drop (xs.length - f.entries))
    : x ∈ old ++ new := by
  rcases h.full with hfull | ⟨rfl, rfl⟩
  . obtain ⟨front, rfl⟩ := h.suffix
    have hle : front.length ≤ (front ++ (old ++ new)).length - f.entries := by
      rw [List.length_append, List.length_append]
      omega
    have hmem := (List.drop_subset_drop_left _ hle) hx
    rwa [List.drop_left] at hmem
  . exact List.mem_of_mem_drop hx

theorem Retains.check_recent (h : f.Retains fresh xs old new) {x : List Byte}
    (hx : x ∈ xs.drop (xs.length - f.entries))
    : f.ppbloomCheck x = 1 := by
  rw [h.check, if_pos]
  rcases List.mem_append.mp (h.mem_recent hx) with hold | hnew
  . exact .inl (check_addAll (.inr hold))
  . exact .inr (check_addAll (.inr hnew))

theorem retains_foldl (h : f.Retains fresh xs old new) (ys : List (List Byte))
    : ∃ old' new', (ys.foldl add f).Retains fresh (xs ++ ys) old' new' ∧ (ys.foldl add f).entries = f.entries := by
  induction ys generalizing f xs old new with
  | nil => exact ⟨old, new, by rwa [List.append_nil], rfl⟩
  | cons y ys ih =>
    obtain ⟨old₁, new₁, h₁, hentries₁⟩ := h.add y
    obtain ⟨old', new', h', hentries'⟩ := ih h₁
    refine ⟨old', new', ?_, hentries'.trans hentries₁⟩
    rwa [List.append_assoc] at h'

/--
After any additions, each of the last `n / 2` is found, the filters hold nothing but the last additions, and neither of
them more than the `n / 2` elements that it was made for.
-/
theorem ppbloom_window (h : ppbloomInit n e = some f) (hn : 2 ≤ n) (xs : List (List Byte))
    : (∀ x ∈ xs.drop (xs.length - n / 2), (xs.foldl add f).ppbloomCheck x = 1)
      ∧ ∃ fresh old new, B.bloomInit (n / 2) e = some fresh ∧ old ++ new <:+ xs
        ∧ old.length ≤ n / 2 ∧ new.length < n / 2
        ∧ ∀ x, (xs.foldl add f).ppbloomCheck x
          = if B.bloomCheck (addAll fresh old) x = true ∨ B.bloomCheck (addAll fresh new) x = true then 1
            else 0 := by
  obtain ⟨fresh, hfresh, hretains, hentries⟩ := retains_init h hn
  obtain ⟨old, new, h', hentries'⟩ := retains_foldl hretains xs
  rw [List.nil_append] at h'
  rw [hentries] at hentries'
  constructor
  . intro x hx
    rw [← hentries'] at hx
    exact h'.check_recent hx
  . refine ⟨fresh, old, new, hfresh, h'.suffix, ?_, by rw [← hentries']; exact h'.room, h'.check⟩
    rw [← hentries']
    rcases h'.full with hfull | ⟨rfl, -⟩
    . exact Nat.le_of_eq hfull
    . exact Nat.zero_le _

theorem ppbloom_window_list
    : ∃ f : PpBloom BloomLib.list, ppbloomInit 4 () = some f
      ∧ (∀ x ∈ ([[1], [2], [3]] : List (List Byte)).drop 1, ([[1], [2], [3]].foldl add f).ppbloomCheck x = 1)
      ∧ ∃ fresh old new, BloomLib.list.bloomInit 2 () = some fresh ∧ old ++ new <:+ [[1], [2], [3]]
        ∧ old.length ≤ 2 ∧ new.length < 2
        ∧ ∀ x, ([[1], [2], [3]].foldl add f).ppbloomCheck x
          = if BloomLib.list.bloomCheck (addAll fresh old) x = true
              ∨ BloomLib.list.bloomCheck (addAll fresh new) x = true then 1
            else 0 :=
  ⟨_, rfl, ppbloom_window (n := 4) rfl (by decide) [[1], [2], [3]]⟩

end PpBloom

end Xsocks
