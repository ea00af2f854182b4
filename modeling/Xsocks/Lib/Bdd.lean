import Mathlib.Algebra.Order.Ring.Int
import Mathlib.Logic.Function.Basic

/-!
This module contains decision diagrams over numbered variables as trees, and their canonicity: an ordered
and reduced diagram is determined by the function that it stands for.
-/

inductive Bdd (α : Type) where
  | leaf (a : α)
  | node (x : Nat) (lo hi : Bdd α)
  deriving DecidableEq

namespace Bdd

variable {α : Type} {n m V W x : Nat} {t u lo hi : Bdd α} {σ τ : Nat → Bool} {a : α}

def eval (σ : Nat → Bool) : Bdd α → α
  | leaf a => a
  | node x lo hi => if σ x then eval σ hi else eval σ lo

def Ordered (n V : Nat) : Bdd α → Prop
  | leaf _ => True
  | node x lo hi => n ≤ x ∧ x < V ∧ Ordered (x + 1) V lo ∧ Ordered (x + 1) V hi

def Reduced : Bdd α → Prop
  | leaf _ => True
  | node _ lo hi => lo ≠ hi ∧ Reduced lo ∧ Reduced hi

def depth : Bdd α → Nat
  | leaf _ => 0
  | node _ lo hi => max (depth lo) (depth hi) + 1

def Asks (σ : Nat → Bool) (x : Nat) : Bdd α → Prop
  | leaf _ => False
  | node y lo hi => x = y ∨ if σ y then Asks σ x hi else Asks σ x lo

/-- What is left of the diagram if the variable `x` is known to be `b`, for an `x` above all others. -/
def cofactor (x : Nat) (b : Bool) : Bdd α → Bdd α
  | leaf a => leaf a
  | node y lo hi => if y = x then (if b then hi else lo) else node y lo hi

theorem Ordered.mono (h : Ordered n V t) (hle : m ≤ n) : Ordered m V t := by
  cases t with
  | leaf a => trivial
  | node x lo hi => exact ⟨Nat.le_trans hle h.1, h.2⟩

theorem Ordered.depth_le (h : Ordered n V t) : depth t ≤ V - n := by
  induction t generalizing n with
  | leaf a => exact Nat.zero_le _
  | node x lo hi ihlo ihhi =>
    obtain ⟨hle, hlt, hlo, hhi⟩ := h
    have := ihlo hlo
    have := ihhi hhi
    rw [depth]
    omega

theorem eval_congr (h : Ordered n V t) (hσ : ∀ x, n ≤ x → x < V → σ x = τ x) : eval σ t = eval τ t := by
  induction t generalizing n with
  | leaf a => rfl
  | node x lo hi ihlo ihhi =>
    obtain ⟨hle, hlt, hlo, hhi⟩ := h
    have hσ' : ∀ y, x + 1 ≤ y → y < V → σ y = τ y := fun y hy => hσ y (by omega)
    rw [eval, eval, hσ x hle hlt, ihlo hlo hσ', ihhi hhi hσ']

theorem Ordered.of_asks (h : Ordered n V t) (hx : Asks σ x t) : n ≤ x ∧ x < V := by
  induction t generalizing n with
  | leaf a => exact hx.elim
  | node y lo hi ihlo ihhi =>
    obtain ⟨hle, hlt, hlo, hhi⟩ := h
    rcases hx with rfl | hx
    . exact ⟨hle, hlt⟩
    . split at hx
      . have := ihhi hhi hx
        omega
      . have := ihlo hlo hx
        omega

theorem eval_update (h : Ordered n V t) (hx : x < n) (b : Bool)
    : eval (Function.update σ x b) t = eval σ t := by
  apply eval_congr h
  intro y hy _
  exact Function.update_of_ne (by omega) _ _

theorem eval_update_node (hlo : Ordered (x + 1) V lo) (hhi : Ordered (x + 1) V hi) (b : Bool)
    : eval (Function.update σ x b) (node x lo hi) = if b then eval σ hi else eval σ lo := by
  rw [eval, Function.update_self, eval_update hlo (Nat.lt_succ_self x), eval_update hhi (Nat.lt_succ_self x)]

theorem exists_eval_ne (hne : lo ≠ hi) (hcanon : (∀ σ, eval σ lo = eval σ hi) → lo = hi)
    : ∃ σ, eval σ lo ≠ eval σ hi := by
  by_contra hall
  apply hne
  apply hcanon
  intro σ
  by_contra heq
  exact hall ⟨σ, heq⟩

theorem eq_of_eval_eq (ht : Ordered n V t) (hu : Ordered n W u) (hrt : Reduced t) (hru : Reduced u)
    (heval : ∀ σ, eval σ t = eval σ u)
    : t = u := by
  induction hsize : sizeOf t + sizeOf u using Nat.strongRecOn generalizing t u n V W with
  | ind size ih =>
  -- A variable that only one of the diagrams looks at does not matter, so that its node is not reduced.
  have hskip : ∀ {n V W : Nat} {x : Nat} {lo hi u : Bdd α}, Ordered (x + 1) V lo → Ordered (x + 1) V hi
      → Ordered (x + 1) W u → Reduced lo → Reduced hi → lo ≠ hi
      → (∀ σ, eval σ (node x lo hi) = eval σ u) → sizeOf lo + sizeOf hi < size → False := by
    intro n V W x lo hi u hlo hhi hu hrlo hrhi hne heval hlt
    apply hne
    apply ih _ hlt hlo hhi hrlo hrhi _ rfl
    intro σ
    have hfalse := heval (Function.update σ x false)
    have htrue := heval (Function.update σ x true)
    rw [eval_update_node hlo hhi, eval_update hu (Nat.lt_succ_self x)] at hfalse htrue
    exact hfalse.trans htrue.symm
  subst hsize
  cases t with
  | leaf a =>
    cases u with
    | leaf b =>
      have := heval fun _ => false
      rw [eval, eval] at this
      rw [this]
    | node y lo hi =>
      obtain ⟨-, -, hlo, hhi⟩ := hu
      obtain ⟨hne, hrlo, hrhi⟩ := hru
      have hleaf : Ordered (y + 1) V (leaf a) := trivial
      refine (hskip (n := n) hlo hhi hleaf hrlo hrhi hne (fun σ => (heval σ).symm) ?_).elim
      simp only [node.sizeOf_spec, leaf.sizeOf_spec]
      omega
  | node x lo hi =>
    obtain ⟨hnx, hxV, hlo, hhi⟩ := ht
    obtain ⟨hne, hrlo, hrhi⟩ := hrt
    cases u with
    | leaf b =>
      have hleaf : Ordered (x + 1) W (leaf b) := trivial
      refine (hskip (n := n) hlo hhi hleaf hrlo hrhi hne heval ?_).elim
      simp only [node.sizeOf_spec, leaf.sizeOf_spec]
      omega
    | node y lo' hi' =>
      obtain ⟨hny, hyW, hlo', hhi'⟩ := hu
      obtain ⟨hne', hrlo', hrhi'⟩ := hru
      rcases Nat.lt_trichotomy x y with hlt | heq | hlt
      . have hu : Ordered (x + 1) W (node y lo' hi') := ⟨hlt, hyW, hlo', hhi'⟩
        exact (hskip (n := n) hlo hhi hu hrlo hrhi hne heval (by simp only [node.sizeOf_spec]; omega)).elim
      . subst heq
        have hchild : ∀ (b : Bool) σ, (if b then eval σ hi else eval σ lo) = if b then eval σ hi' else eval σ lo' := by
          intro b σ
          have := heval (Function.update σ x b)
          rw [eval_update_node hlo hhi, eval_update_node hlo' hhi'] at this
          exact this
        have hlo_eq := ih _ (by simp only [node.sizeOf_spec]; omega) hlo hlo' hrlo hrlo' (hchild false) rfl
        have hhi_eq := ih _ (by simp only [node.sizeOf_spec]; omega) hhi hhi' hrhi hrhi' (hchild true) rfl
        rw [hlo_eq, hhi_eq]
      . have ht : Ordered (y + 1) V (node x lo hi) := ⟨hlt, hxV, hlo, hhi⟩
        have heval' : ∀ σ, eval σ (node y lo' hi') = eval σ (node x lo hi) := fun σ => (heval σ).symm
        exact (hskip (n := n) hlo' hhi' ht hrlo' hrhi' hne' heval' (by simp only [node.sizeOf_spec]; omega)).elim

theorem Ordered.of_indep (ht : Ordered n V t) (hrt : Reduced t)
    (hindep : ∀ σ τ, (∀ x, x < W → σ x = τ x) → eval σ t = eval τ t)
    : Ordered n W t := by
  induction t generalizing n with
  | leaf a => trivial
  | node x lo hi ihlo ihhi =>
    obtain ⟨hle, hlt, hlo, hhi⟩ := ht
    obtain ⟨hne, hrlo, hrhi⟩ := hrt
    have hchild : ∀ (b : Bool) (σ τ : Nat → Bool), (∀ y, y < W → σ y = τ y)
        → (if b then eval σ hi else eval σ lo) = if b then eval τ hi else eval τ lo := by
      intro b σ τ hστ
      rw [← eval_update_node hlo hhi b, ← eval_update_node hlo hhi b]
      apply hindep
      intro y hy
      by_cases heq : y = x
      . rw [heq, Function.update_self, Function.update_self]
      . rw [Function.update_of_ne heq, Function.update_of_ne heq, hστ y hy]
    refine ⟨hle, ?_, ihlo hlo hrlo (hchild false), ihhi hhi hrhi (hchild true)⟩
    by_contra hge
    obtain ⟨σ, hσ⟩ := exists_eval_ne hne (eq_of_eval_eq hlo hhi hrlo hrhi)
    apply hσ
    have := hindep (Function.update σ x false) (Function.update σ x true) (by
      intro y hy
      rw [Function.update_of_ne (by omega), Function.update_of_ne (by omega)])
    rw [eval_update_node hlo hhi, eval_update_node hlo hhi] at this
    exact this

theorem ordered_cofactor (ht : Ordered x V t) (b : Bool) : Ordered (x + 1) V (cofactor x b t) := by
  cases t with
  | leaf a => trivial
  | node y lo hi =>
    obtain ⟨hle, hlt, hlo, hhi⟩ := ht
    rw [cofactor]
    split
    . next heq =>
      subst heq
      cases b
      . exact hlo
      . exact hhi
    . next hne => exact ⟨by omega, hlt, hlo, hhi⟩

theorem reduced_cofactor (ht : Reduced t) (x : Nat) (b : Bool) : Reduced (cofactor x b t) := by
  cases t with
  | leaf a => trivial
  | node y lo hi =>
    obtain ⟨hne, hlo, hhi⟩ := ht
    rw [cofactor]
    split
    . cases b
      . exact hlo
      . exact hhi
    . exact ⟨hne, hlo, hhi⟩

theorem eval_cofactor (ht : Ordered x V t) (b : Bool) (σ : Nat → Bool)
    : eval σ (cofactor x b t) = eval (Function.update σ x b) t := by
  cases t with
  | leaf a => rfl
  | node y lo hi =>
    obtain ⟨hle, hlt, hlo, hhi⟩ := ht
    rw [cofactor]
    split
    . next heq =>
      subst heq
      rw [eval_update_node hlo hhi]
      cases b <;> rfl
    . next hne =>
      have ht : Ordered (x + 1) V (node y lo hi) := ⟨by omega, hlt, hlo, hhi⟩
      rw [eval_update ht (Nat.lt_succ_self x)]

theorem Asks.cofactor (h : Asks σ x t) {y : Nat} (hne : x ≠ y) : Asks σ x (cofactor y (σ y) t) := by
  cases t with
  | leaf a => exact h
  | node z lo hi =>
    rw [Bdd.cofactor]
    split
    . next heq =>
      subst heq
      rcases h with heq | h
      . contradiction
      . cases hσ : σ z with
        | true =>
          rw [hσ, if_pos rfl] at h
          exact h
        | false =>
          rw [hσ, if_neg (by simp)] at h
          exact h
    . exact h

def mk [DecidableEq α] (x : Nat) (lo hi : Bdd α) : Bdd α :=
  if lo = hi then lo else node x lo hi

theorem eval_mk [DecidableEq α] : eval σ (mk x lo hi) = if σ x then eval σ hi else eval σ lo := by
  rw [mk]
  split
  . next heq =>
    rw [heq]
    split <;> rfl
  . rfl

theorem ordered_mk [DecidableEq α] (hle : n ≤ x) (hlt : x < V) (hlo : Ordered (x + 1) V lo)
    (hhi : Ordered (x + 1) V hi)
    : Ordered n V (mk x lo hi) := by
  rw [mk]
  split
  . exact hlo.mono (by omega)
  . exact ⟨hle, hlt, hlo, hhi⟩

end Bdd
