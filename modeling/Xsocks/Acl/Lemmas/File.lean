import Xsocks.Acl.Impl.Acl

/-!
This module contains how `init_acl` reads its file: it gets the lines of the file one after another, and what
does not fit into the buffer is discarded together with the rest of its line.
-/

namespace Xsocks.Acl

variable {l rest buf file : List Byte} {n : Nat}

def trimLine (line : List Byte) : List Byte :=
  trimwhitespace (trimComment line)

/-- The texts of a file: long lines do not count, and blank ones neither. -/
def texts (file : List Byte) : List (List Byte) :=
  (((file.splitOn 10).filter fun line => line.length < 255).map trimLine).filter (· ≠ [])

def afterLine (file : List Byte) : List Byte :=
  (file.dropWhile (· ≠ 10)).tail

theorem exists_line (file : List Byte) : 10 ∉ file ∨ ∃ l rest, 10 ∉ l ∧ file = l ++ 10 :: rest := by
  by_cases h : 10 ∈ file
  . obtain ⟨l, rest, heq, hl⟩ := List.eq_append_cons_of_mem h
    exact .inr ⟨l, rest, hl, heq⟩
  . exact .inl h

theorem readLine_line (h : 10 ∉ l) (hlt : l.length < n) : readLine n (l ++ 10 :: rest) = (l ++ [10], rest) := by
  induction l generalizing n with
  | nil =>
    obtain ⟨n, rfl⟩ := Nat.exists_eq_add_one_of_ne_zero (Nat.ne_of_gt hlt)
    rfl
  | cons b l ih =>
    obtain ⟨n, rfl⟩ := Nat.exists_eq_add_one_of_ne_zero (Nat.ne_of_gt (Nat.zero_lt_of_lt hlt))
    rw [List.mem_cons, not_or] at h
    rw [List.cons_append, readLine, if_neg (Ne.symm h.1), ih h.2 (Nat.lt_of_succ_lt_succ hlt)]
    rfl

theorem readLine_end (h : 10 ∉ l) (hle : l.length ≤ n) : readLine n l = (l, []) := by
  induction l generalizing n with
  | nil => cases n <;> rfl
  | cons b l ih =>
    obtain ⟨n, rfl⟩ := Nat.exists_eq_add_one_of_ne_zero (Nat.ne_of_gt (Nat.zero_lt_of_lt hle))
    rw [List.mem_cons, not_or] at h
    rw [readLine, if_neg (Ne.symm h.1), ih h.2 (Nat.le_of_succ_le_succ hle)]

theorem readLine_full (rest : List Byte) (h : 10 ∉ l) (hle : n ≤ l.length)
    : readLine n (l ++ rest) = (l.take n, l.drop n ++ rest) := by
  induction l generalizing n with
  | nil =>
    obtain rfl := Nat.le_zero.mp hle
    rfl
  | cons b l ih =>
    cases n with
    | zero => rfl
    | succ n =>
      rw [List.mem_cons, not_or] at h
      rw [List.cons_append, readLine, if_neg (Ne.symm h.1), ih h.2 (Nat.le_of_succ_le_succ hle)]
      rfl

theorem afterLine_line (h : 10 ∉ l) : afterLine (l ++ 10 :: rest) = rest := by
  rw [afterLine, List.dropWhile_append_of_pos]
  . rfl
  . intro b hb
    rw [decide_eq_true_iff]
    rintro rfl
    exact h hb

theorem afterLine_end (h : 10 ∉ l) : afterLine l = [] := by
  have hall : ∀ b ∈ l, decide (b ≠ 10) = true := by
    intro b hb
    rw [decide_eq_true_iff]
    rintro rfl
    exact h hb
  rw [afterLine, List.dropWhile_eq_nil_iff.mpr hall]
  rfl

theorem isLong_eq_false (hnul : 0 ∉ buf) (h : buf.length ≠ 255 ∨ buf[254]? = some 10) : isLong buf = false := by
  rw [isLong, CString.ofBuf_of_noNul buf hnul, decide_eq_false_iff_not]
  rintro ⟨hlen, hne⟩
  rcases h with h | h
  . exact h hlen
  . exact hne h

theorem isLong_line (hnul : 0 ∉ l) : isLong (l ++ [10]) = false := by
  apply isLong_eq_false
  . rw [List.mem_append, List.mem_singleton, not_or]
    exact ⟨hnul, by decide⟩
  . by_cases hlen : l.length = 254
    . right
      rw [← hlen, List.getElem?_append_right (Nat.le_refl _), Nat.sub_self]
      rfl
    . left
      rw [List.length_append, List.length_singleton]
      omega

theorem isLong_full (hnul : 0 ∉ l) (h : 10 ∉ l) (hlen : 255 ≤ l.length) : isLong (l.take 255) = true := by
  rw [isLong, CString.ofBuf_of_noNul _ (fun hmem => hnul (List.mem_of_mem_take hmem)), decide_eq_true_iff,
    List.length_take, Nat.min_eq_left hlen]
  refine ⟨rfl, fun hmem => ?_⟩
  exact h (List.mem_of_mem_take (List.mem_of_getElem? hmem))

theorem discard_long {fuel : Nat} (longLine : Nat) (h : isLong buf = true) (hnul : 0 ∉ file)
    (hfuel : file.length < fuel)
    : ∃ k, k ≠ 0 ∧ discard fuel longLine buf file = .ok (k, afterLine file) := by
  induction fuel generalizing buf file longLine with
  | zero => exact absurd hfuel (Nat.not_lt_zero _)
  | succ fuel ih =>
    rw [discard, if_pos h, fgets]
    by_cases hnil : file = []
    . rw [if_pos hnil, hnil]
      exact ⟨2, by decide, rfl⟩
    . have hpos : 0 < fuel := by
        have := List.length_pos_iff.mpr hnil
        omega
      obtain ⟨m, rfl⟩ : ∃ m, fuel = m + 1 := ⟨fuel - 1, by omega⟩
      have hfull : ∀ {l rest : List Byte}, file = l ++ rest → 10 ∉ l → 255 ≤ l.length
          → ∃ k, k ≠ 0
            ∧ discard (m + 1) 1 (l.take 255) (l.drop 255 ++ rest) = .ok (k, afterLine (l.drop 255 ++ rest)) := by
        rintro l rest rfl hl hlen
        apply ih 1 (isLong_full _ hl hlen)
        . intro hmem
          apply hnul
          rw [List.mem_append] at hmem ⊢
          exact hmem.imp_left List.mem_of_mem_drop
        . rw [List.length_append] at hfuel ⊢
          rw [List.length_drop]
          omega
        . exact fun hmem => hnul (List.mem_append_left _ hmem)
      rw [if_neg hnil]
      dsimp only
      rcases exists_line file with hl | ⟨l, rest, hl, rfl⟩
      . by_cases hlen : file.length < 255
        . rw [readLine_end hl (by omega)]
          dsimp only
          rw [discard, if_neg (by rw [isLong_eq_false hnul (.inl (by omega))]; simp), afterLine_end hl]
          exact ⟨1, Nat.one_ne_zero, rfl⟩
        . have hread := readLine_full [] hl (Nat.le_of_not_lt hlen)
          obtain ⟨k, hk, hdiscard⟩ := hfull (List.append_nil file).symm hl (Nat.le_of_not_lt hlen)
          simp only [List.append_nil] at hread hdiscard
          rw [hread]
          refine ⟨k, hk, ?_⟩
          rw [afterLine_end hl, hdiscard, afterLine_end fun hmem => hl (List.mem_of_mem_drop hmem)]
      . by_cases hlen : l.length < 255
        . rw [readLine_line hl (by omega)]
          dsimp only
          have hnul_l : 0 ∉ l := fun hmem => hnul (List.mem_append_left _ hmem)
          rw [discard, if_neg (by rw [isLong_line hnul_l]; simp), afterLine_line hl]
          exact ⟨1, Nat.one_ne_zero, rfl⟩
        . obtain ⟨k, hk, hdiscard⟩ := hfull rfl hl (Nat.le_of_not_lt hlen)
          rw [readLine_full _ hl (Nat.le_of_not_lt hlen)]
          refine ⟨k, hk, ?_⟩
          rw [afterLine_line hl, hdiscard, afterLine_line fun hmem => hl (List.mem_of_mem_drop hmem)]

def lineTexts (line : List Byte) : List (List Byte) :=
  if line.length < 255 ∧ trimLine line ≠ [] then [trimLine line] else []

theorem texts_filter {lines : List (List Byte)}
    : (((l :: lines).filter fun line => line.length < 255).map trimLine).filter (· ≠ [])
      = lineTexts l ++ ((lines.filter fun line => line.length < 255).map trimLine).filter (· ≠ []) := by
  rw [lineTexts]
  by_cases hlen : l.length < 255
  . by_cases htrim : trimLine l = []
    . simp [hlen, htrim]
    . simp [hlen, htrim]
  . simp [hlen]

theorem texts_line (h : 10 ∉ l) : texts (l ++ 10 :: rest) = lineTexts l ++ texts rest := by
  rw [texts, List.splitOn_append_cons_self_of_not_mem h, texts_filter, texts]

theorem texts_nil : texts [] = [] := by
  rfl

theorem texts_end (h : 10 ∉ l) : texts l = lineTexts l ++ texts [] := by
  rw [texts, List.splitOn_eq_singleton h, texts_filter, texts_nil]
  rfl

theorem lineText_line (hnul : 0 ∉ l) : lineText (l ++ [10]) = trimLine l := by
  have hnul' : 0 ∉ l ++ [10] := by
    rw [List.mem_append, List.mem_singleton, not_or]
    exact ⟨hnul, by decide⟩
  rw [lineText, CString.ofBuf_of_noNul _ hnul', trimNewline, List.getLast?_concat, if_pos rfl, List.dropLast_concat,
    trimLine]

theorem lineText_end (hnul : 0 ∉ l) (h : 10 ∉ l) : lineText l = trimLine l := by
  rw [lineText, CString.ofBuf_of_noNul _ hnul, trimNewline, if_neg, trimLine]
  intro hlast
  exact h (List.mem_of_getLast? hlast)

theorem fgets_line (hne : file ≠ []) (hnul : 0 ∉ file)
    : ∃ buf rest k, fgets 256 file = some (buf, rest) ∧ discard (rest.length + 1) 0 buf rest = .ok (k, afterLine file)
      ∧ texts file = (if k = 0 ∧ lineText buf ≠ [] then [lineText buf] else []) ++ texts (afterLine file)
      ∧ (afterLine file).length < file.length ∧ 0 ∉ afterLine file := by
  have hpos := List.length_pos_iff.mpr hne
  rw [fgets, if_neg hne]
  rcases exists_line file with hl | ⟨l, rest, hl, rfl⟩
  . rw [afterLine_end hl, texts_end hl]
    by_cases hlen : file.length < 255
    . refine ⟨file, [], 0, by rw [readLine_end hl (by omega)], ?_, ?_, hpos, List.not_mem_nil⟩
      . rw [discard, if_neg (by rw [isLong_eq_false hnul (.inl (by omega))]; simp)]
        rfl
      . rw [lineTexts, lineText_end hnul hl]
        simp only [hlen, true_and]
    . have hread := readLine_full [] hl (Nat.le_of_not_lt hlen)
      simp only [List.append_nil] at hread
      obtain ⟨k, hk, hdiscard⟩ := discard_long 0 (isLong_full hnul hl (Nat.le_of_not_lt hlen))
        (fun hmem => hnul (List.mem_of_mem_drop hmem)) (Nat.lt_succ_self _)
      rw [afterLine_end fun hmem => hl (List.mem_of_mem_drop hmem)] at hdiscard
      refine ⟨_, _, k, by rw [hread], hdiscard, ?_, hpos, List.not_mem_nil⟩
      rw [lineTexts]
      simp only [hlen, hk, false_and, if_false]
  . rw [afterLine_line hl, texts_line hl]
    have hnul_l : 0 ∉ l := fun hmem => hnul (List.mem_append_left _ hmem)
    have hnul_rest : 0 ∉ rest := fun hmem => hnul (List.mem_append_right _ (List.mem_cons_of_mem _ hmem))
    have hlt : rest.length < (l ++ 10 :: rest).length := by
      rw [List.length_append, List.length_cons]
      omega
    by_cases hlen : l.length < 255
    . refine ⟨l ++ [10], rest, 0, by rw [readLine_line hl (by omega)], ?_, ?_, hlt, hnul_rest⟩
      . rw [discard, if_neg (by rw [isLong_line hnul_l]; simp)]
        rfl
      . rw [lineTexts, lineText_line hnul_l]
        simp only [hlen, true_and]
    . have hnul_drop : 0 ∉ l.drop 255 ++ 10 :: rest := by
        intro hmem
        apply hnul
        rw [List.mem_append] at hmem ⊢
        exact hmem.imp_left List.mem_of_mem_drop
      obtain ⟨k, hk, hdiscard⟩ := discard_long 0 (isLong_full hnul_l hl (Nat.le_of_not_lt hlen))
        hnul_drop (Nat.lt_succ_self _)
      rw [afterLine_line fun hmem => hl (List.mem_of_mem_drop hmem)] at hdiscard
      refine ⟨_, _, k, by rw [readLine_full _ hl (Nat.le_of_not_lt hlen)], hdiscard, ?_, hlt, hnul_rest⟩
      rw [lineTexts]
      simp only [hlen, hk, false_and, if_false]

end Xsocks.Acl
