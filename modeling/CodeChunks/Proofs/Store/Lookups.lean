import CodeChunks.Proofs.Store.History
import Mathlib.Data.List.Perm.Basic

/-! # What a store that holds some chunks answers

Chunks and terms are answered from what is held for a path, scores from all chunks. How many chunks
there are and how many have a term is the same whether chunks are taken as they were stored or path
by path. -/
namespace CodeChunks

theorem Assoc.find?_map {α κ β : Type} [DecidableEq κ] (key : α → κ) (val : α → β) (k : κ)
    (xs : List α) :
    find? k (xs.map fun x => (key x, val x)) = (xs.find? fun x => key x == k).map val := by
  induction xs with
  | nil => rfl
  | cons x xs ih =>
    by_cases hx : key x = k
    · simp [find?, hx]
    · simp [find?, hx, ih]

/-- Elements taken kind by kind are all the elements. -/
theorem flatMap_filter_perm {α κ : Type} [DecidableEq κ] {kind : α → κ} {kinds : List κ}
    (hkinds : kinds.Nodup) {xs : List α} (hxs : ∀ x ∈ xs, kind x ∈ kinds) :
    (kinds.flatMap fun k => xs.filter (kind · == k)).Perm xs := by
  induction kinds generalizing xs with
  | nil =>
    rw [List.eq_nil_iff_forall_not_mem.mpr fun x hx => List.not_mem_nil (hxs x hx)]
    exact .nil
  | cons k ks ih =>
    obtain ⟨hk, hks⟩ := List.nodup_cons.mp hkinds
    have hothers : ∀ j ∈ ks, xs.filter (kind · == j) =
        (xs.filter fun x => !(kind x == k)).filter (kind · == j) := by
      intro j hj
      rw [List.filter_filter]
      apply List.filter_congr
      intro x _
      by_cases hx : kind x = j
      · have hjk : j ≠ k := fun h => hk (h ▸ hj)
        simp [hx, hjk]
      · simp [hx]
    have hrest : ∀ x ∈ xs.filter fun x => !(kind x == k), kind x ∈ ks := by
      intro x hx
      obtain ⟨hx, hne⟩ := List.mem_filter.mp hx
      rcases List.mem_cons.mp (hxs x hx) with heq | hmem
      · simp [heq] at hne
      · exact hmem
    rw [List.flatMap_cons, List.flatMap_congr hothers]
    exact ((ih hks hrest).append_left _).trans (List.filter_append_perm _ xs)

namespace Holdings

variable (s : Holdings) (path : String)

/-- The chunks held for a path. -/
def heldAt : List Holding :=
  match s.files.find? (·.path == path) with
  | none => []
  | some f => s.chunks.filter (·.fileId == f.id)

def idsAt : List Int := (s.heldAt path).map (·.id)

theorem chunkRowsAt_lexicon : s.lexicon.chunkRowsAt path = (s.heldAt path).map s.measured := by
  have hfile : s.lexicon.fileAt? path = s.files.find? (·.path == path) := rfl
  rw [Lexicon.chunkRowsAt, heldAt, hfile]
  cases s.files.find? (·.path == path) with
  | none => rfl
  | some f =>
    dsimp only
    rw [lexicon, List.filter_map]
    rfl

theorem lookup_record : s.record.lookup path = (s.heldAt path).map (·.chunk) := by
  rw [Record.lookup, record, Assoc.find?_map, heldAt]
  cases s.files.find? (·.path == path) <;> rfl

theorem map_id_chunkRowsAt : (s.lexicon.chunkRowsAt path).map (·.id) = s.idsAt path := by
  rw [chunkRowsAt_lexicon, List.map_map]
  rfl

theorem length_idsAt : (s.idsAt path).length = (s.record.lookup path).length := by
  rw [idsAt, lookup_record, List.length_map, List.length_map]

variable {s path}

theorem mem_heldAt_iff (hs : s.Sound) {k : Holding} :
    k ∈ s.heldAt path ↔ k ∈ s.chunks ∧ ∃ f ∈ s.files, f.path = path ∧ f.id = k.fileId := by
  rw [heldAt]
  cases hfind : s.files.find? (·.path == path) with
  | none =>
    constructor
    · intro hk
      cases hk
    · rintro ⟨hk, f, hf, hpath, hfile⟩
      exact absurd hpath (path_ne_of_find?_eq_none hfind f hf)
  | some g =>
    obtain ⟨hg, hgpath⟩ := mem_and_path_of_find? hfind
    constructor
    · intro hk
      obtain ⟨hk, hfile⟩ := List.mem_filter.mp hk
      exact ⟨hk, g, hg, hgpath, (beq_iff_eq.mp hfile).symm⟩
    · rintro ⟨hk, f, hf, hpath, hfile⟩
      have hgf := List.inj_on_of_nodup_map hs.paths_nodup hg hf (hgpath.trans hpath.symm)
      exact List.mem_filter.mpr ⟨hk, beq_iff_eq.mpr (hgf ▸ hfile.symm)⟩

theorem heldAt_eq_nil (hpath : path ∉ s.files.map (·.path)) : s.heldAt path = [] := by
  rw [heldAt]
  cases hfind : s.files.find? (·.path == path) with
  | none => rfl
  | some f =>
    obtain ⟨hf, hfp⟩ := mem_and_path_of_find? hfind
    exact absurd (hfp ▸ List.mem_map_of_mem hf) hpath

theorem nodup_idsAt (hs : s.Sound) (path : String) : (s.idsAt path).Nodup := by
  rw [idsAt, heldAt]
  split
  · exact .nil
  · exact hs.ids_nodup.sublist (List.filter_sublist.map _)

/-- Chunks at different paths have different numbers. -/
theorem nodup_flatMap_idsAt (hs : s.Sound) {paths : List String} (hpaths : paths.Nodup) :
    (paths.flatMap s.idsAt).Nodup := by
  rw [List.nodup_flatMap]
  refine ⟨fun path _ => nodup_idsAt hs path, hpaths.imp ?_⟩
  intro p q hpq id hp hq
  obtain ⟨j, hj, rfl⟩ := List.mem_map.mp hp
  obtain ⟨k, hk, hid⟩ := List.mem_map.mp hq
  obtain ⟨hj, f, hf, hfp, hfj⟩ := (mem_heldAt_iff hs).mp hj
  obtain ⟨hk, g, hg, hgq, hgk⟩ := (mem_heldAt_iff hs).mp hk
  obtain rfl := List.inj_on_of_nodup_map hs.ids_nodup hk hj hid
  obtain rfl := List.inj_on_of_nodup_map hs.fileIds_nodup hf hg (hfj.trans hgk.symm)
  exact hpq (hfp.symm.trans hgq)

/-- Each chunk is held for the path of some file. -/
theorem mem_flatMap_idsAt (hs : s.Sound) {k : Holding} (hk : k ∈ s.chunks) :
    k.id ∈ (s.files.map (·.path)).flatMap s.idsAt := by
  obtain ⟨f, hf, hid⟩ := hs.filed k hk
  have hheld : k ∈ s.heldAt f.path := (mem_heldAt_iff hs).mpr ⟨hk, f, hf, rfl, hid⟩
  exact List.mem_flatMap.mpr ⟨f.path, List.mem_map_of_mem hf, List.mem_map_of_mem hheld⟩

theorem termsAt_lexicon (hs : s.Sound) (path : String) :
    s.lexicon.termsAt path = (s.heldAt path).flatMap fun k => k.terms.map s.weigh := by
  rw [Lexicon.termsAt, map_id_chunkRowsAt, idsAt, heldAt]
  cases s.files.find? (·.path == path) with
  | none => exact List.filter_eq_nil_iff.mpr fun t _ => by simp
  | some f =>
    dsimp only
    rw [lexicon, List.filter_flatMap]
    apply flatMap_eq_flatMap_filter
    intro k hk
    rw [filter_eq_ite_of_chunkId (fun t ht => chunkId_of_mem_map_weigh ht)
      ((s.chunks.filter fun k => k.fileId == f.id).map (·.id)).contains,
      Lexicon.Shows.contains_ids hs.ids_nodup (· == f.id) hk]

theorem idf?_lexicon (w : Text) :
    s.lexicon.idf? w = if s.frequency w = 0 then none else some (s.rarity w) := by
  have hmem : w ∈ Lexicon.vocabulary (s.chunks.flatMap (·.terms)) ↔ s.frequency w ≠ 0 := by
    rw [Lexicon.mem_vocabulary, frequency, ← Nat.pos_iff_ne_zero, List.countP_pos_iff]
    constructor
    · rintro ⟨t, ht, rfl⟩
      obtain ⟨k, hk, ht⟩ := List.mem_flatMap.mp ht
      exact ⟨k, hk, decide_eq_true (mem_of_mem_termRows ht)⟩
    · rintro ⟨k, hk, hw⟩
      obtain ⟨t, ht, htw⟩ := exists_mem_termRows k.id (of_decide_eq_true hw)
      exact ⟨t, List.mem_flatMap.mpr ⟨k, hk, ht⟩, htw⟩
  rw [Lexicon.idf?, lexicon, Lexicon.scoreOf?_map]
  by_cases hzero : s.frequency w = 0
  · rw [if_pos hzero, if_neg fun h => hmem.mp h hzero]
  · rw [if_neg hzero, if_pos (hmem.mpr hzero)]

/-- The record has the chunks held, taken file by file. -/
theorem perm_chunks_record (hs : s.Sound) : s.record.chunks.Perm (s.chunks.map (·.chunk)) := by
  have hfiles : s.record.chunks =
      ((s.files.map (·.id)).flatMap fun id => s.chunks.filter (·.fileId == id)).map (·.chunk) := by
    rw [Record.chunks, record, List.flatMap_map, List.map_flatMap, List.flatMap_map]
    rfl
  have hfiled : ∀ k ∈ s.chunks, k.fileId ∈ s.files.map (·.id) := by
    intro k hk
    obtain ⟨f, hf, hid⟩ := hs.filed k hk
    exact hid ▸ List.mem_map_of_mem hf
  rw [hfiles]
  exact (flatMap_filter_perm hs.fileIds_nodup hfiled).map _

end Holdings

end CodeChunks
