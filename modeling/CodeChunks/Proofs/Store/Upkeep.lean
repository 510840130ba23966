import CodeChunks.Proofs.Store.Holdings

/-! # What storing and removing keep in order -/
namespace CodeChunks

namespace Holding

variable (fileId id : Int) (cs : List Chunk)

theorem map_chunk_number : (number fileId id cs).map (·.chunk) = cs := by
  induction cs generalizing id with
  | nil => rfl
  | cons c cs ih => rw [number, List.map_cons, ih]

variable {fileId id cs}

theorem bounds_of_mem_number {k : Holding} (h : k ∈ number fileId id cs) :
    k.fileId = fileId ∧ id ≤ k.id ∧ k.id < id + cs.length := by
  induction cs generalizing id with
  | nil => cases h
  | cons c cs ih =>
    rw [List.length_cons]
    rcases List.mem_cons.mp h with rfl | h
    · exact ⟨rfl, Int.le_refl id, by dsimp only; omega⟩
    · obtain ⟨hfile, hlow, hhigh⟩ := ih h
      exact ⟨hfile, by omega, by omega⟩

theorem nodup_ids_number (fileId id : Int) (cs : List Chunk) :
    ((number fileId id cs).map (·.id)).Nodup := by
  induction cs generalizing id with
  | nil => exact .nil
  | cons c cs ih =>
    rw [number, List.map_cons, List.nodup_cons]
    refine ⟨?_, ih (id + 1)⟩
    intro hmem
    obtain ⟨k, hk, hid⟩ := List.mem_map.mp hmem
    have hbounds := bounds_of_mem_number hk
    dsimp only at hid
    omega

end Holding

theorem mem_and_path_of_find? {files : List FileRow} {path : String} {f : FileRow}
    (h : files.find? (·.path == path) = some f) : f ∈ files ∧ f.path = path := by
  have hpath : (f.path == path) = true :=
    List.find?_some (p := fun f : FileRow => f.path == path) h
  exact ⟨List.mem_of_find?_eq_some h, beq_iff_eq.mp hpath⟩

theorem path_ne_of_find?_eq_none {files : List FileRow} {path : String}
    (h : files.find? (·.path == path) = none) : ∀ f ∈ files, f.path ≠ path :=
  fun f hf hpath => List.find?_eq_none.mp h f hf (beq_iff_eq.mpr hpath)

namespace Holdings

/-- Files have different paths and numbers, chunks have different numbers and files that are there,
and the words that a file is said to have are those of its chunks. -/
structure Sound (s : Holdings) : Prop where
  paths_nodup : (s.files.map (·.path)).Nodup
  fileIds_nodup : (s.files.map (·.id)).Nodup
  fileId_lt : ∀ f ∈ s.files, f.id < s.nextFile
  ids_nodup : (s.chunks.map (·.id)).Nodup
  id_lt : ∀ k ∈ s.chunks, k.id < s.nextChunk
  filed : ∀ k ∈ s.chunks, ∃ f ∈ s.files, f.id = k.fileId
  counted : ∀ f ∈ s.files,
    f.tokenCount = total ((s.heldBy f.id).map fun c => (tokenize c.content).length)

theorem sound_empty : Sound {} where
  paths_nodup := .nil
  fileIds_nodup := .nil
  fileId_lt := nofun
  ids_nodup := .nil
  id_lt := nofun
  filed := nofun
  counted := nofun

section

variable (s : Holdings) (fileIds : List Int) (fileId j : Int) (cs : List Chunk)

theorem heldBy_drop : (s.drop fileIds).heldBy j = if j ∈ fileIds then [] else s.heldBy j := by
  rw [heldBy, drop, List.filter_filter]
  by_cases hj : j ∈ fileIds
  · rw [if_pos hj, List.map_eq_nil_iff, List.filter_eq_nil_iff]
    intro k _ hk
    simp only [Bool.and_eq_true, beq_iff_eq, Bool.not_eq_true', List.contains_eq_mem,
      decide_eq_false_iff_not] at hk
    exact hk.2 (hk.1 ▸ hj)
  · rw [if_neg hj, heldBy]
    congr 1
    apply List.filter_congr
    intro k _
    by_cases hk : k.fileId = j
    · simp [hk, hj]
    · simp [hk]

theorem heldBy_add : (s.add fileId cs).heldBy j = s.heldBy j ++ if j = fileId then cs else [] := by
  rw [heldBy, add, List.filter_append, List.map_append, heldBy]
  congr 1
  by_cases hj : j = fileId
  · have hall : (Holding.number fileId s.nextChunk cs).filter (·.fileId == j) =
        Holding.number fileId s.nextChunk cs := by
      rw [List.filter_eq_self]
      intro k hk
      rw [beq_iff_eq, hj, (Holding.bounds_of_mem_number hk).1]
    rw [if_pos hj, hall, Holding.map_chunk_number]
  · rw [if_neg hj, List.map_eq_nil_iff, List.filter_eq_nil_iff]
    intro k hk hkj
    rw [beq_iff_eq, (Holding.bounds_of_mem_number hk).1] at hkj
    exact hj hkj.symm

/-- A file that is put in holds its new chunks, and other files hold what they held. -/
theorem heldBy_persist (r : FileRow) :
    (s.persist r cs).2.heldBy j = if j = (s.putFile r).1 then cs else s.heldBy j := by
  have hput : (s.putFile r).2.heldBy j = s.heldBy j := by
    rw [putFile]
    split <;> rfl
  rw [persist, heldBy_add, heldBy_drop, hput]
  by_cases hj : j = (s.putFile r).1 <;> simp [hj]

end

/-- One file of those that are left has the path and the number of the one that was put in; the
others were there before. -/
structure Puts (s : Holdings) (r : FileRow) (id : Int) (t : Holdings) : Prop where
  paths_nodup : (t.files.map (·.path)).Nodup
  fileIds_nodup : (t.files.map (·.id)).Nodup
  fileId_lt : ∀ f ∈ t.files, f.id < t.nextFile
  put : { r with id } ∈ t.files
  others : ∀ f ∈ t.files, f = { r with id } ∨ f ∈ s.files ∧ f.id ≠ id
  stay : ∀ f ∈ s.files, ∃ g ∈ t.files, g.id = f.id
  chunks_eq : t.chunks = s.chunks
  nextChunk_eq : t.nextChunk = s.nextChunk

namespace Sound

variable {s : Holdings}

theorem putFile_new (hs : s.Sound) {r : FileRow} (hr : ∀ f ∈ s.files, f.path ≠ r.path) :
    s.Puts r s.nextFile { s with
      files := s.files ++ [{ r with id := s.nextFile }], nextFile := s.nextFile + 1 } where
  paths_nodup := by
    rw [List.map_append, List.nodup_append]
    refine ⟨hs.paths_nodup, List.nodup_singleton _, ?_⟩
    intro p hp q hq
    obtain ⟨f, hf, rfl⟩ := List.mem_map.mp hp
    rw [List.mem_singleton.mp hq]
    exact hr f hf
  fileIds_nodup := by
    rw [List.map_append, List.nodup_append]
    refine ⟨hs.fileIds_nodup, List.nodup_singleton _, ?_⟩
    intro i hi j hj
    obtain ⟨f, hf, rfl⟩ := List.mem_map.mp hi
    rw [List.mem_singleton.mp hj]
    exact Int.ne_of_lt (hs.fileId_lt f hf)
  fileId_lt := by
    intro f hf
    rcases List.mem_append.mp hf with hf | hf
    · exact Int.lt_trans (hs.fileId_lt f hf) (Int.lt_succ _)
    · rw [List.mem_singleton.mp hf]
      exact Int.lt_succ _
  put := by simp
  others := by
    intro f hf
    rcases List.mem_append.mp hf with hf | hf
    · exact .inr ⟨hf, Int.ne_of_lt (hs.fileId_lt f hf)⟩
    · exact .inl (List.mem_singleton.mp hf)
  stay := fun f hf => ⟨f, List.mem_append_left _ hf, rfl⟩
  chunks_eq := rfl
  nextChunk_eq := rfl

theorem putFile_old (hs : s.Sound) {r old : FileRow} (hold : old ∈ s.files)
    (hpath : old.path = r.path) : s.Puts r old.id { s with
      files := s.files.map fun f => if f.path == r.path then { r with id := old.id } else f
      nextFile := s.nextFile + 1 } := by
  have hrow : ∀ f ∈ s.files, f.path = r.path → f = old := by
    intro f hf hfr
    exact List.inj_on_of_nodup_map hs.paths_nodup hf hold (hfr.trans hpath.symm)
  have hpaths : (s.files.map fun f => if f.path == r.path then { r with id := old.id } else f).map
      (·.path) = s.files.map (·.path) := by
    rw [List.map_map]
    apply List.map_congr_left
    intro f _
    by_cases hfr : f.path = r.path <;> simp [hfr]
  have hids : (s.files.map fun f => if f.path == r.path then { r with id := old.id } else f).map
      (·.id) = s.files.map (·.id) := by
    rw [List.map_map]
    apply List.map_congr_left
    intro f hf
    by_cases hfr : f.path = r.path
    · simp [hrow f hf hfr, hpath]
    · simp [hfr]
  have hmem : ∀ f ∈ s.files, f.path ≠ r.path → f.id ≠ old.id := by
    intro f hf hfr hid
    have := List.inj_on_of_nodup_map hs.fileIds_nodup hf hold hid
    exact hfr (this ▸ hpath)
  constructor
  case paths_nodup => exact hpaths ▸ hs.paths_nodup
  case fileIds_nodup => exact hids ▸ hs.fileIds_nodup
  case fileId_lt =>
    intro f hf
    have hid : f.id ∈ s.files.map (·.id) := hids ▸ List.mem_map_of_mem hf
    obtain ⟨g, hg, hgf⟩ := List.mem_map.mp hid
    rw [← hgf]
    exact Int.lt_trans (hs.fileId_lt g hg) (Int.lt_succ _)
  case put => exact List.mem_map.mpr ⟨old, hold, by simp [hpath]⟩
  case others =>
    intro f hf
    obtain ⟨g, hg, rfl⟩ := List.mem_map.mp hf
    by_cases hgr : g.path = r.path
    · simp [hgr]
    · simpa [hgr] using .inr ⟨hg, hmem g hg hgr⟩
  case stay =>
    intro f hf
    have hid : f.id ∈ s.files.map (·.id) := List.mem_map_of_mem hf
    rw [← hids] at hid
    exact List.mem_map.mp hid
  case chunks_eq => rfl
  case nextChunk_eq => rfl

theorem putFile (hs : s.Sound) (r : FileRow) : s.Puts r (s.putFile r).1 (s.putFile r).2 := by
  rw [Holdings.putFile]
  cases hfind : s.files.find? (·.path == r.path) with
  | none => exact hs.putFile_new (path_ne_of_find?_eq_none hfind)
  | some old =>
    obtain ⟨hold, hpath⟩ := mem_and_path_of_find? hfind
    exact hs.putFile_old hold hpath

theorem persist (hs : s.Sound) {r : FileRow} {cs : List Chunk}
    (hr : r.tokenCount = total (cs.map fun c => (tokenize c.content).length)) :
    (s.persist r cs).2.Sound := by
  have hput := hs.putFile r
  have hchunks : (s.persist r cs).2.chunks =
      (s.chunks.filter fun k => !([(s.putFile r).1].contains k.fileId)) ++
        Holding.number (s.putFile r).1 s.nextChunk cs := by
    rw [← hput.chunks_eq, ← hput.nextChunk_eq]
    rfl
  have hold : ∀ k ∈ s.chunks.filter fun k => !([(s.putFile r).1].contains k.fileId),
      k ∈ s.chunks := fun k hk => List.mem_of_mem_filter hk
  constructor
  case paths_nodup => exact hput.paths_nodup
  case fileIds_nodup => exact hput.fileIds_nodup
  case fileId_lt => exact hput.fileId_lt
  case ids_nodup =>
    rw [hchunks, List.map_append, List.nodup_append]
    refine ⟨hs.ids_nodup.sublist (List.filter_sublist.map _), Holding.nodup_ids_number .., ?_⟩
    intro i hi j hj
    obtain ⟨k, hk, rfl⟩ := List.mem_map.mp hi
    obtain ⟨l, hl, rfl⟩ := List.mem_map.mp hj
    have hklt := hs.id_lt k (hold k hk)
    have hlge := (Holding.bounds_of_mem_number hl).2.1
    omega
  case id_lt =>
    intro k hk
    have hnext : (s.persist r cs).2.nextChunk = s.nextChunk + cs.length := by
      rw [← hput.nextChunk_eq]
      rfl
    rw [hchunks] at hk
    rcases List.mem_append.mp hk with hk | hk
    · have hlt := hs.id_lt k (hold k hk)
      omega
    · have hlt := (Holding.bounds_of_mem_number hk).2.2
      omega
  case filed =>
    intro k hk
    rw [hchunks] at hk
    rcases List.mem_append.mp hk with hk | hk
    · obtain ⟨f, hf, hid⟩ := hs.filed k (hold k hk)
      obtain ⟨g, hg, hgf⟩ := hput.stay f hf
      exact ⟨g, hg, hgf.trans hid⟩
    · exact ⟨_, hput.put, (Holding.bounds_of_mem_number hk).1.symm⟩
  case counted =>
    intro f hf
    rw [heldBy_persist]
    rcases hput.others f hf with rfl | ⟨hf, hid⟩
    · rw [if_pos rfl]
      exact hr
    · rw [if_neg hid]
      exact hs.counted f hf

theorem delete (hs : s.Sound) (paths : List String) : (s.delete paths).Sound := by
  have hfiles : (s.delete paths).files.Sublist s.files := List.filter_sublist
  have hchunks : (s.delete paths).chunks.Sublist s.chunks := List.filter_sublist
  constructor
  case paths_nodup => exact hs.paths_nodup.sublist (hfiles.map _)
  case fileIds_nodup => exact hs.fileIds_nodup.sublist (hfiles.map _)
  case fileId_lt => exact fun f hf => hs.fileId_lt f (hfiles.mem hf)
  case ids_nodup => exact hs.ids_nodup.sublist (hchunks.map _)
  case id_lt => exact fun k hk => hs.id_lt k (hchunks.mem hk)
  case filed =>
    intro k hk
    obtain ⟨hk, hkept⟩ := List.mem_filter.mp hk
    obtain ⟨f, hf, hid⟩ := hs.filed k hk
    exact ⟨f, List.mem_filter.mpr ⟨hf, by rwa [hid]⟩, hid⟩
  case counted =>
    intro f hf
    obtain ⟨hf, hkept⟩ := List.mem_filter.mp hf
    have hheld : (s.delete paths).heldBy f.id = s.heldBy f.id := by
      have hdrop := s.heldBy_drop ((s.files.filter fun f => paths.contains f.path).map (·.id)) f.id
      rwa [if_neg (by simpa using hkept)] at hdrop
    rw [hheld]
    exact hs.counted f hf

end Sound

/-! ## The tables follow -/

variable {s : Holdings}

theorem persist_lexicon (hs : s.Sound) (path : String) (content : Text) (language : Option String)
    (cs : List Chunk) (mtime : Int) :
    s.lexicon.persist path content language cs mtime = match Lexicon.refusal? cs mtime with
      | some e => (.error e, s.lexicon)
      | none =>
        let (id, t) := s.persist (Lexicon.fileRow path content language cs mtime) cs
        (.ok id, t.lexicon) := by
  rw [Lexicon.persist_eq]
  cases Lexicon.refusal? cs mtime with
  | some e => rfl
  | none =>
    have hsound : (s.persist (Lexicon.fileRow path content language cs mtime) cs).2.Sound :=
      hs.persist rfl
    generalize Lexicon.fileRow path content language cs mtime = r at hsound ⊢
    obtain ⟨hid, hput⟩ := s.shows_lexicon.putFile r
    have hids := (hs.putFile r).chunks_eq ▸ hs.ids_nodup
    have hshows := (hput.dropChunks hids [(s.putFile r).1]).addChunks (s.putFile r).1 cs
    dsimp only
    rw [hid, hshows.refresh_eq hsound.ids_nodup]
    rfl

theorem delete_lexicon (hs : s.Sound) (paths : List String) :
    s.lexicon.delete paths = (s.delete paths).lexicon := by
  have hfiles : s.lexicon.files = s.files := rfl
  rw [Lexicon.delete, hfiles]
  dsimp only
  by_cases hnone : ((s.files.filter fun f => paths.contains f.path).map (·.id)).isEmpty
  · rw [if_pos hnone, delete, List.isEmpty_iff.mp hnone]
    simp [drop]
  · rw [if_neg hnone]
    have hdrop := s.shows_lexicon.dropChunks hs.ids_nodup
      ((s.files.filter fun f => paths.contains f.path).map (·.id))
    have hshows : Lexicon.Shows { s.lexicon.dropChunks
        ((s.files.filter fun f => paths.contains f.path).map (·.id)) with
          files := s.files.filter fun f =>
            !((s.files.filter fun f => paths.contains f.path).map (·.id)).contains f.id }
        (s.delete paths) :=
      { hdrop with files_eq := rfl }
    exact hshows.refresh_eq (hs.delete paths).ids_nodup

end Holdings

end CodeChunks
