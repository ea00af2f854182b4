import Mathlib.Data.List.Basic

/-!
This module contains the encoding of a sequence of chunks by a stateful encoder, and what it means
for a receiver to recover the chunks from the concatenation of their encodings.
-/

namespace Chunks

variable {κ α β : Type}

/--
Encodes all chunks in order, with the state passed on from one to the next. `none` if the encoder
fails on one of them.
-/
def encodeAll (enc : κ → List α → Option (List β × κ)) (c : κ)
    : List (List α) → Option (List β × κ)
  | [] => some ([], c)
  | p :: ps =>
    match enc c p with
    | none => none
    | some (x, c) =>
      match encodeAll enc c ps with
      | none => none
      | some (y, c) => some (x ++ y, c)

variable {enc : κ → List α → Option (List β × κ)} {c c' c'' : κ} {ps : List (List α)} {p : List α}
  {x y : List β}

theorem encodeAll_concat (h : encodeAll enc c ps = some (x, c')) (hp : enc c' p = some (y, c''))
    : encodeAll enc c (ps ++ [p]) = some (x ++ y, c'') := by
  induction ps generalizing c x with
  | nil =>
    simp only [encodeAll, Option.some.injEq, Prod.mk.injEq] at h
    obtain ⟨rfl, rfl⟩ := h
    simp [encodeAll, hp]
  | cons q ps ih =>
    simp only [List.cons_append, encodeAll] at h ⊢
    split at h
    . contradiction
    . next z d heq =>
      split at h
      . contradiction
      . next w d' heq' =>
        simp only [Option.some.injEq, Prod.mk.injEq] at h
        obtain ⟨rfl, rfl⟩ := h
        simp [ih heq']

theorem exists_of_encodeAll_cons (h : encodeAll enc c (p :: ps) = some (x, c''))
    : ∃ y c' z, enc c p = some (y, c') ∧ encodeAll enc c' ps = some (z, c'') ∧ x = y ++ z := by
  rw [encodeAll] at h
  split at h
  . contradiction
  . next y c' heq =>
    split at h
    . contradiction
    . next z d heq' =>
      simp only [Option.some.injEq, Prod.mk.injEq] at h
      rw [← h.2]
      exact ⟨y, c', z, heq, heq', h.1.symm⟩

/--
`recover` is what a receiver gets from the bytes that have reached it: it never takes back what it has
got, and from the encodings of some chunks it gets the chunks.
-/
structure Recovers (enc : κ → List α → Option (List β × κ)) (c : κ) (recover : List β → List α)
    : Prop where
  mono : ∀ {x y}, x <+: y → recover x <+: recover y
  inverse : ∀ {ps x c'}, encodeAll enc c ps = some (x, c') → recover x = ps.flatten

variable {recover : List β → List α}

theorem Recovers.prefix_flatten (h : Recovers enc c recover)
    (hx : encodeAll enc c ps = some (x, c')) (hy : y <+: x)
    : recover y <+: ps.flatten := by
  rw [← h.inverse hx]
  exact h.mono hy

end Chunks
