import CodeChunks.Text.Basic
import Mathlib.Data.List.Basic

/-! # Beginnings and lines of texts -/
namespace CodeChunks.Text

theorem startsWith_iff {t u : Text} : t.startsWith u ↔ u <+: t := by
  induction u generalizing t with
  | nil => simp [startsWith]
  | cons d u ih =>
    cases t with
    | nil => simp [startsWith]
    | cons c t =>
      rw [startsWith, Bool.and_eq_true, beq_iff_eq, ih, List.cons_prefix_cons, @eq_comm _ c]

theorem splitAtChar_eq_splitOn (d : Char) (t : Text) : splitAtChar d t = t.splitOn d := by
  induction t with
  | nil => rfl
  | cons c t ih =>
    rw [splitAtChar, ih, List.splitOn_cons_eq_if_modifyHead]
    simp only [beq_iff_eq]
    split
    · rfl
    · cases h : t.splitOn d with
      | nil => exact absurd h (List.splitOn_ne_nil d t)
      | cons l ls => rfl

theorem notMem_of_mem_splitAtChar {d : Char} {t l : Text} (h : l ∈ splitAtChar d t) : d ∉ l := by
  induction t generalizing l with
  | nil =>
    obtain rfl := List.mem_singleton.mp h
    simp
  | cons c t ih =>
    rw [splitAtChar] at h
    by_cases hc : c = d
    · rw [if_pos hc] at h
      rcases List.mem_cons.mp h with rfl | h
      · simp
      · exact ih h
    · rw [if_neg hc] at h
      cases hparts : splitAtChar d t with
      | nil =>
        rw [hparts] at h
        obtain rfl := List.mem_singleton.mp h
        simp [Ne.symm hc]
      | cons l' ls =>
        rw [hparts] at h ih
        rcases List.mem_cons.mp h with rfl | h
        · simp [ih List.mem_cons_self, Ne.symm hc]
        · exact ih (List.mem_cons_of_mem _ h)

theorem unlines_lines (t : Text) : unlines t.lines = t := by
  rw [unlines, lines, splitAtChar_eq_splitOn, List.intercalate_splitOn]

theorem lines_append_newline (t u : Text) : (t ++ '\n' :: u).lines = t.lines ++ u.lines := by
  simp only [lines, splitAtChar_eq_splitOn]
  exact List.splitOn_append_cons_self t u

theorem lines_eq_singleton {t : Text} (h : '\n' ∉ t) : t.lines = [t] := by
  rw [lines, splitAtChar_eq_splitOn, List.splitOn_eq_singleton h]

theorem exists_lines_eq_cons (t : Text) : ∃ l ls, t.lines = l :: ls := by
  rw [lines, splitAtChar_eq_splitOn]
  exact List.exists_cons_of_ne_nil (List.splitOn_ne_nil _ t)

theorem unlines_singleton (l : Text) : unlines [l] = l := by simp [unlines]

theorem unlines_cons {ls : List Text} (l : Text) (h : ls ≠ []) :
    unlines (l :: ls) = l ++ '\n' :: unlines ls := by
  rw [unlines, List.intercalate_cons_of_ne_nil h]
  simp [unlines]

theorem unlines_append {ks ls : List Text} (hk : ks ≠ []) (hl : ls ≠ []) :
    unlines (ks ++ ls) = unlines ks ++ '\n' :: unlines ls := by
  induction ks with
  | nil => exact absurd rfl hk
  | cons k ks ih =>
    cases ks with
    | nil => rw [List.singleton_append, unlines_cons k hl, unlines_singleton]
    | cons k' ks =>
      rw [List.cons_append, unlines_cons k (by simp), ih (by simp), unlines_cons k (by simp)]
      simp only [List.append_assoc, List.cons_append]

theorem notMem_of_mem_lines {t l : Text} (h : l ∈ t.lines) : '\n' ∉ l := notMem_of_mem_splitAtChar h

theorem count_unlines {ls : List Text} (hne : ls ≠ []) (h : ∀ l ∈ ls, '\n' ∉ l) :
    (unlines ls).count '\n' + 1 = ls.length := by
  induction ls with
  | nil => exact absurd rfl hne
  | cons l ls ih =>
    obtain ⟨hl, hls⟩ := List.forall_mem_cons.mp h
    have hcount := List.count_eq_zero_of_not_mem hl
    cases ls with
    | nil => rw [unlines_singleton, hcount, List.length_singleton]
    | cons k ks =>
      rw [unlines_cons l (by simp), List.count_append, List.count_cons_self, hcount, Nat.zero_add,
        ih (by simp) hls]
      rfl

/-- A text has one line more than newlines. -/
theorem length_lines (t : Text) : t.lines.length = t.count '\n' + 1 := by
  obtain ⟨l, ls, hlines⟩ := t.exists_lines_eq_cons
  have hcount := count_unlines (hlines ▸ List.cons_ne_nil l ls) fun _ => notMem_of_mem_lines
  rw [← hcount, unlines_lines]

end CodeChunks.Text
