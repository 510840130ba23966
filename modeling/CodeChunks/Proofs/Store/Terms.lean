import CodeChunks.Store.Lexicon
import Mathlib.Data.List.Nodup

/-! # The term rows of a chunk

Each different word of a chunk has one row, in the order of the first occurrences, and the counts
of the rows add up to the number of words. -/
namespace CodeChunks

section

variable {α : Type} [BEq α] [LawfulBEq α]

theorem nodup_eraseDups (xs : List α) : xs.eraseDups.Nodup := by
  induction h : xs.length using Nat.strongRecOn generalizing xs with
  | ind n ih =>
    cases xs with
    | nil => exact .nil
    | cons x xs =>
      have hlt : (xs.filter fun y => !y == x).length < n := by
        have := List.length_filter_le (fun y => !y == x) xs
        simp only [List.length_cons] at h
        omega
      rw [List.eraseDups_cons, List.nodup_cons]
      exact ⟨by simp [List.mem_eraseDups], ih _ hlt _ rfl⟩

theorem eraseDups_eq_self {xs : List α} (h : xs.Nodup) : xs.eraseDups = xs := by
  induction xs with
  | nil => rfl
  | cons x xs ih =>
    obtain ⟨hx, hxs⟩ := List.nodup_cons.mp h
    have hfilter : xs.filter (fun y => !y == x) = xs := by
      rw [List.filter_eq_self]
      intro y hy
      have hne : y ≠ x := fun heq => hx (heq ▸ hy)
      simpa using hne
    rw [List.eraseDups_cons, hfilter, ih hxs]

theorem filter_beq_of_nodup {xs : List α} (h : xs.Nodup) (x : α) [Decidable (x ∈ xs)] :
    xs.filter (· == x) = if x ∈ xs then [x] else [] := by
  rw [List.filter_beq]
  by_cases hx : x ∈ xs
  · rw [if_pos hx, List.count_eq_one_of_mem h hx]
    rfl
  · rw [if_neg hx, List.count_eq_zero.mpr hx]
    rfl

/-- The occurrences of the different entries are all the entries. -/
theorem total_count_eraseDups (xs : List α) :
    total (xs.eraseDups.map fun x => xs.count x) = xs.length := by
  induction h : xs.length using Nat.strongRecOn generalizing xs with
  | ind n ih =>
    cases xs with
    | nil => exact h
    | cons x xs =>
      have hsplit := List.length_eq_length_filter_add (l := xs) (fun y => y == x)
      have hcount : xs.count x = (xs.filter fun y => y == x).length := List.countP_eq_length_filter
      have hothers : (xs.filter fun y => !y == x).eraseDups.map (fun y => (x :: xs).count y) =
          (xs.filter fun y => !y == x).eraseDups.map
            fun y => (xs.filter fun y => !y == x).count y := by
        apply List.map_congr_left
        intro y hy
        obtain ⟨-, hne⟩ := List.mem_filter.mp (List.mem_eraseDups.mp hy)
        have hxy : (x == y) = false := by
          rw [beq_eq_false_iff_ne]
          rintro rfl
          simp at hne
        have hfilter : (xs.filter fun y => !y == x).count y = xs.count y := List.count_filter hne
        rw [List.count_cons, hxy, hfilter]
        rfl
      simp only [List.length_cons] at h
      rw [List.eraseDups_cons, List.map_cons, total_cons, hothers, ih _ (by omega) _ rfl,
        List.count_cons_self]
      omega

end

section

variable (id : Int) (ws : List Text)

theorem map_term_termRows : (termRows id ws).map (·.term) = ws.eraseDups := by
  rw [termRows, termCounts, List.map_map, List.map_map]
  exact List.map_id _

theorem total_count_termRows : total ((termRows id ws).map (·.count)) = ws.length := by
  rw [termRows, termCounts, List.map_map, List.map_map]
  exact total_count_eraseDups ws

variable {id ws}

theorem chunkId_of_mem_termRows {t : TermRow} (h : t ∈ termRows id ws) : t.chunkId = id := by
  obtain ⟨p, -, rfl⟩ := List.mem_map.mp h
  rfl

theorem tfidf_of_mem_termRows {t : TermRow} (h : t ∈ termRows id ws) : t.tfidf = 0 := by
  obtain ⟨p, -, rfl⟩ := List.mem_map.mp h
  rfl

theorem mem_of_mem_termRows {t : TermRow} (h : t ∈ termRows id ws) : t.term ∈ ws := by
  have hmem := List.mem_map_of_mem (f := (·.term)) h
  rw [map_term_termRows] at hmem
  exact List.mem_eraseDups.mp hmem

theorem exists_mem_termRows (id : Int) {w : Text} (h : w ∈ ws) :
    ∃ t ∈ termRows id ws, t.term = w := by
  have hmem := List.mem_eraseDups.mpr h
  rw [← map_term_termRows id ws] at hmem
  exact List.mem_map.mp hmem

theorem termRows_eq_nil_iff : termRows id ws = [] ↔ ws = [] := by
  rw [termRows, termCounts, List.map_eq_nil_iff, List.map_eq_nil_iff]
  constructor
  · intro h
    cases ws with
    | nil => rfl
    | cons w ws =>
      rw [List.eraseDups_cons] at h
      cases h
  · rintro rfl
    rfl

/-- A term has one row in a chunk that it occurs in and none in any other. -/
theorem filter_term_termRows (w : Text) :
    ((termRows id ws).filter (·.term == w)).map (·.chunkId) = if w ∈ ws then [id] else [] := by
  have hterms : ((termRows id ws).filter (·.term == w)).map (·.term) =
      if w ∈ ws then [w] else [] := by
    have hself := filter_beq_of_nodup (nodup_eraseDups ws) w
    rw [← map_term_termRows id ws, List.filter_map] at hself
    simpa only [map_term_termRows, List.mem_eraseDups, Function.comp_def] using hself
  have hids : ((termRows id ws).filter (·.term == w)).map (·.chunkId) =
      (((termRows id ws).filter (·.term == w)).map (·.term)).map fun _ => id := by
    rw [List.map_map]
    apply List.map_congr_left
    intro t ht
    exact chunkId_of_mem_termRows (List.mem_of_mem_filter ht)
  rw [hids, hterms]
  split <;> rfl

end

namespace Lexicon

theorem mem_vocabulary {ts : List TermRow} {w : Text} :
    w ∈ vocabulary ts ↔ ∃ t ∈ ts, t.term = w := by
  simp [vocabulary, List.mem_mergeSort, List.mem_eraseDups]

@[simp] theorem vocabulary_nil : vocabulary [] = [] := by simp [vocabulary]

end Lexicon

end CodeChunks
