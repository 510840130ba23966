import CodeChunks.Proofs.Store.Persisting
import CodeChunks.Proofs.Store.Terms

/-! # The tables of a store follow from the chunks that it holds

A store is told by its files and by the chunks that it holds for them, each under a number: term
rows, weights, scores and magnitudes can be computed from these. Storing and removing files acts on
the chunks held, and the tables follow. -/
namespace CodeChunks

/-- A chunk that is held for a file, under a number of its own. -/
structure Holding where
  id : Int
  fileId : Int
  chunk : Chunk

namespace Holding

def words (k : Holding) : List Text := tokenize k.chunk.content

/-- The row of the chunk before it is measured. -/
def row (k : Holding) : ChunkRow := Lexicon.chunkRow k.id k.fileId k.chunk k.words.length

/-- The rows of its terms before they are weighted. -/
def terms (k : Holding) : List TermRow := termRows k.id k.words

theorem chunkId_of_mem_terms {k : Holding} {t : TermRow} (ht : t ∈ k.terms) : t.chunkId = k.id :=
  chunkId_of_mem_termRows ht

/-- Chunks of a file under consecutive numbers. -/
def number (fileId : Int) : Int → List Chunk → List Holding
  | _, [] => []
  | id, c :: cs => ⟨id, fileId, c⟩ :: number fileId (id + 1) cs

end Holding

/-- The files of a store and the chunks that it holds, with the next numbers. -/
structure Holdings where
  files : List FileRow := []
  chunks : List Holding := []
  nextFile : Int := 1
  nextChunk : Int := 1

namespace Holdings

variable (s : Holdings)

/-- The chunks held for a file, in order. -/
def heldBy (fileId : Int) : List Chunk := (s.chunks.filter (·.fileId == fileId)).map (·.chunk)

def putFile (r : FileRow) : Int × Holdings :=
  match s.files.find? (·.path == r.path) with
  | some old => (old.id, { s with
      files := s.files.map fun f => if f.path == r.path then { r with id := old.id } else f
      nextFile := s.nextFile + 1 })
  | none => (s.nextFile, { s with
      files := s.files ++ [{ r with id := s.nextFile }]
      nextFile := s.nextFile + 1 })

def drop (fileIds : List Int) : Holdings :=
  { s with chunks := s.chunks.filter fun k => !fileIds.contains k.fileId }

def add (fileId : Int) (cs : List Chunk) : Holdings :=
  { s with
    chunks := s.chunks ++ Holding.number fileId s.nextChunk cs
    nextChunk := s.nextChunk + cs.length }

/-- Puts a file in the place of what is held for its path. -/
def persist (r : FileRow) (cs : List Chunk) : Int × Holdings :=
  ((s.putFile r).1, ((s.putFile r).2.drop [(s.putFile r).1]).add (s.putFile r).1 cs)

def delete (paths : List String) : Holdings :=
  let ids := (s.files.filter fun f => paths.contains f.path).map (·.id)
  { s.drop ids with files := s.files.filter fun f => !ids.contains f.id }

/-- The number of chunks that a term occurs in. -/
def frequency (w : Text) : Nat := s.chunks.countP fun k => decide (w ∈ k.words)

/-- How rare a term is among the chunks. -/
def rarity (w : Text) : Float :=
  Logarithm.ln (Binary64.ratio s.chunks.length (s.frequency w))

def weigh (t : TermRow) : TermRow := { t with tfidf := t.tf * s.rarity t.term }

/-- The length of the vector of the weights of some rows. -/
def norm (ts : List TermRow) : Float := (Binary64.sum (ts.map fun t => t.tfidf * t.tfidf)).sqrt

theorem norm_nil : norm [] = 0 := by decide +kernel

def measured (k : Holding) : ChunkRow := { k.row with magnitude := norm (k.terms.map s.weigh) }

/-- The tables of a store that holds these chunks. -/
def lexicon : Lexicon where
  files := s.files
  chunks := s.chunks.map s.measured
  terms := s.chunks.flatMap fun k => k.terms.map s.weigh
  scores := (Lexicon.vocabulary (s.chunks.flatMap (·.terms))).map fun w =>
    ⟨w, s.rarity w, s.frequency w⟩
  nextFile := s.nextFile
  nextChunk := s.nextChunk

end Holdings

theorem flatMap_eq_flatMap_filter {α β : Type} {p : α → Bool} {f g : α → List β} {xs : List α}
    (h : ∀ x ∈ xs, f x = if p x then g x else []) : xs.flatMap f = (xs.filter p).flatMap g := by
  induction xs with
  | nil => rfl
  | cons x xs ih =>
    have hx := h x List.mem_cons_self
    have hxs := ih fun y hy => h y (List.mem_cons_of_mem x hy)
    cases hp : p x <;> simp [hp, hx, hxs]

/-- Where equal images come from elements whose other images are equal, these are equal as lists. -/
theorem map_eq_map_of_map_eq_map {α β γ δ : Type} {f : α → γ} {g : β → γ} {f' : α → δ} {g' : β → δ}
    {xs : List α} {ys : List β} (h : xs.map f = ys.map g)
    (himp : ∀ x ∈ xs, ∀ y ∈ ys, f x = g y → f' x = g' y) : xs.map f' = ys.map g' := by
  induction xs generalizing ys with
  | nil =>
    rw [List.map_nil, eq_comm, List.map_eq_nil_iff] at h
    rw [h]
    rfl
  | cons x xs ih =>
    cases ys with
    | nil => cases h
    | cons y ys =>
      obtain ⟨hxy, hrest⟩ := List.cons.inj h
      rw [List.map_cons, List.map_cons, himp x List.mem_cons_self y List.mem_cons_self hxy,
        ih hrest fun a ha b hb => himp a (.tail x ha) b (.tail y hb)]

def ChunkRow.bare (c : ChunkRow) : ChunkRow := { c with magnitude := 0 }

def TermRow.bare (t : TermRow) : TermRow := { t with tfidf := 0 }

theorem map_bare_termRows (id : Int) (ws : List Text) :
    (termRows id ws).map (·.bare) = termRows id ws := by
  have hself : ∀ t ∈ termRows id ws, t.bare = t := by
    intro t ht
    rw [TermRow.bare, ← tfidf_of_mem_termRows ht]
  rw [List.map_congr_left hself]
  exact List.map_id _

/-- The rows of one chunk are all taken or none. -/
theorem filter_eq_ite_of_chunkId {ts : List TermRow} {id : Int} (h : ∀ t ∈ ts, t.chunkId = id)
    (p : Int → Bool) : ts.filter (fun t => p t.chunkId) = if p id then ts else [] := by
  by_cases hp : p id
  · rw [if_pos hp, List.filter_eq_self]
    intro t ht
    rw [h t ht]
    exact hp
  · rw [if_neg hp, List.filter_eq_nil_iff]
    intro t ht
    rw [h t ht]
    exact hp

/-- The tables hold the chunks, whatever their weights, magnitudes and scores are; what has no words
has no magnitude. -/
structure Lexicon.Shows (x : Lexicon) (s : Holdings) : Prop where
  files_eq : x.files = s.files
  chunks_eq : x.chunks.map (·.bare) = s.chunks.map (·.row)
  terms_eq : x.terms.map (·.bare) = s.chunks.flatMap (·.terms)
  magnitude_eq : ∀ c ∈ x.chunks, c.tokenCount = 0 → c.magnitude = 0
  nextFile_eq : x.nextFile = s.nextFile
  nextChunk_eq : x.nextChunk = s.nextChunk

namespace Lexicon.Shows

variable {x : Lexicon} {s : Holdings}

theorem putFile (h : x.Shows s) (r : FileRow) :
    (x.putFile r).1 = (s.putFile r).1 ∧ (x.putFile r).2.Shows (s.putFile r).2 := by
  rw [Lexicon.putFile, Holdings.putFile, fileAt?, h.files_eq, h.nextFile_eq]
  cases s.files.find? (·.path == r.path) with
  | none => exact ⟨rfl, rfl, h.chunks_eq, h.terms_eq, h.magnitude_eq, rfl, h.nextChunk_eq⟩
  | some old => exact ⟨rfl, rfl, h.chunks_eq, h.terms_eq, h.magnitude_eq, rfl, h.nextChunk_eq⟩

/-- Which rows stay depends on what the bare rows have. -/
theorem map_filter_chunks (h : x.Shows s) (p : Int → Bool) :
    (x.chunks.filter fun c => p c.fileId).map (·.bare) =
      (s.chunks.filter fun k => p k.fileId).map (·.row) := by
  have hleft : (x.chunks.filter fun c => p c.fileId).map (·.bare) =
      (x.chunks.map (·.bare)).filter fun c => p c.fileId := by
    rw [List.filter_map]
    rfl
  rw [hleft, h.chunks_eq, List.filter_map]
  rfl

/-- Of the chunks held, those of some files are known by their numbers. -/
theorem contains_ids (hs : (s.chunks.map (·.id)).Nodup) (p : Int → Bool) {k : Holding}
    (hk : k ∈ s.chunks) :
    ((s.chunks.filter fun k => p k.fileId).map (·.id)).contains k.id = p k.fileId := by
  rw [Bool.eq_iff_iff, List.contains_iff_mem]
  constructor
  · intro hmem
    obtain ⟨j, hj, hid⟩ := List.mem_map.mp hmem
    obtain ⟨hj, hp⟩ := List.mem_filter.mp hj
    rwa [List.inj_on_of_nodup_map hs hj hk hid] at hp
  · intro hp
    exact List.mem_map_of_mem (List.mem_filter.mpr ⟨hk, hp⟩)

theorem dropChunks (h : x.Shows s) (hs : (s.chunks.map (·.id)).Nodup) (fileIds : List Int) :
    (x.dropChunks fileIds).Shows (s.drop fileIds) where
  files_eq := h.files_eq
  chunks_eq := h.map_filter_chunks fun id => !fileIds.contains id
  terms_eq := by
    have hgone : (x.chunks.filter fun c => fileIds.contains c.fileId).map (·.id) =
        (s.chunks.filter fun k => fileIds.contains k.fileId).map (·.id) := by
      have := congrArg (List.map (·.id)) (h.map_filter_chunks fileIds.contains)
      rwa [List.map_map, List.map_map] at this
    have hfilter : ∀ ids : List Int,
        (x.terms.filter fun t => !ids.contains t.chunkId).map (·.bare) =
          s.chunks.flatMap fun k => k.terms.filter fun t => !ids.contains t.chunkId := by
      intro ids
      rw [← List.filter_flatMap, ← h.terms_eq, List.filter_map]
      rfl
    simp only [Lexicon.dropChunks, Holdings.drop, hgone, hfilter]
    apply flatMap_eq_flatMap_filter
    intro k hk
    rw [filter_eq_ite_of_chunkId (fun t ht => Holding.chunkId_of_mem_terms ht)
      fun id => !((s.chunks.filter fun k => fileIds.contains k.fileId).map (·.id)).contains id,
      contains_ids hs fileIds.contains hk]
  magnitude_eq := fun c hc => h.magnitude_eq c (List.mem_of_mem_filter hc)
  nextFile_eq := h.nextFile_eq
  nextChunk_eq := h.nextChunk_eq

theorem addChunk (h : x.Shows s) (fileId : Int) (c : Chunk) :
    (x.addChunk fileId c).Shows (s.add fileId [c]) where
  files_eq := h.files_eq
  chunks_eq := by
    simp only [Lexicon.addChunk, Holdings.add, List.map_append, h.chunks_eq, h.nextChunk_eq]
    rfl
  terms_eq := by
    simp only [Lexicon.addChunk, Holdings.add, List.map_append, h.terms_eq, h.nextChunk_eq,
      map_bare_termRows, List.flatMap_append]
    simp [Holding.number, Holding.terms, Holding.words]
  magnitude_eq := by
    intro d hd hcount
    rcases List.mem_append.mp hd with hd | hd
    · exact h.magnitude_eq d hd hcount
    · rw [List.mem_singleton.mp hd]
      rfl
  nextFile_eq := h.nextFile_eq
  nextChunk_eq := by simp [Lexicon.addChunk, Holdings.add, h.nextChunk_eq]

theorem addChunks (h : x.Shows s) (fileId : Int) (cs : List Chunk) :
    (x.addChunks fileId cs).Shows (s.add fileId cs) := by
  induction cs generalizing x s with
  | nil =>
    have hs : s.add fileId [] = s := by simp [Holdings.add, Holding.number]
    rw [hs]
    exact h
  | cons c cs ih =>
    have hs : s.add fileId (c :: cs) = (s.add fileId [c]).add fileId cs := by
      have hnext : s.nextChunk + (cs.length + 1) = s.nextChunk + 1 + cs.length := by omega
      simp [Holdings.add, Holding.number, hnext]
    rw [hs]
    exact ih (h.addChunk fileId c)

theorem map_chunkId_filter_terms (h : x.Shows s) (w : Text) :
    (x.terms.filter (·.term == w)).map (·.chunkId) =
      (s.chunks.filter fun k => decide (w ∈ k.words)).map (·.id) := by
  have hbare : (x.terms.filter (·.term == w)).map (·.chunkId) =
      ((x.terms.map (·.bare)).filter (·.term == w)).map (·.chunkId) := by
    rw [List.filter_map, List.map_map]
    rfl
  rw [hbare, h.terms_eq, List.filter_flatMap, List.map_flatMap]
  have hrows : ∀ k ∈ s.chunks, (k.terms.filter (·.term == w)).map (·.chunkId) =
      if decide (w ∈ k.words) then [k.id] else [] := by
    intro k _
    rw [Holding.terms, filter_term_termRows w]
    simp only [decide_eq_true_eq]
  rw [flatMap_eq_flatMap_filter hrows, List.map_eq_flatMap]

/-- A term occurs in as many chunks of the tables as are held with it. -/
theorem frequency_eq (h : x.Shows s) (hs : (s.chunks.map (·.id)).Nodup) (w : Text) :
    frequency x.terms w = s.frequency w := by
  have hnodup : ((s.chunks.filter fun k => decide (w ∈ k.words)).map (·.id)).Nodup :=
    hs.sublist (List.filter_sublist.map _)
  rw [frequency, h.map_chunkId_filter_terms, eraseDups_eq_self hnodup, List.length_map,
    Holdings.frequency, List.countP_eq_length_filter]

theorem vocabulary_eq (h : x.Shows s) :
    vocabulary x.terms = vocabulary (s.chunks.flatMap (·.terms)) := by
  have hterms : x.terms.map (·.term) = (x.terms.map (·.bare)).map (·.term) := by
    rw [List.map_map]
    rfl
  rw [vocabulary, vocabulary, hterms, h.terms_eq]

theorem scoreRow_eq (h : x.Shows s) (hs : (s.chunks.map (·.id)).Nodup) (w : Text) :
    scoreRow x.chunks.length x.terms w = ⟨w, s.rarity w, s.frequency w⟩ := by
  have hlength := congrArg List.length h.chunks_eq
  rw [List.length_map, List.length_map] at hlength
  rw [scoreRow, h.frequency_eq hs, hlength]
  rfl

end Lexicon.Shows

/-- The score that a term has among others. -/
theorem Lexicon.scoreOf?_map (ws : List Text) (f : Text → Float) (n : Text → Nat) (w : Text) :
    scoreOf? (ws.map fun w => ⟨w, f w, n w⟩) w = if w ∈ ws then some (f w) else none := by
  induction ws with
  | nil => rfl
  | cons v ws ih =>
    by_cases hv : v = w
    · simp [scoreOf?, hv]
    · have hv' : ¬ w = v := fun h => hv h.symm
      simpa [scoreOf?, hv, hv'] using ih

namespace Holdings

variable {s : Holdings}

theorem weigh_eq {t : TermRow} (ht : t ∈ s.chunks.flatMap (·.terms)) :
    Lexicon.weigh s.lexicon.scores t = s.weigh t := by
  have hmem : t.term ∈ Lexicon.vocabulary (s.chunks.flatMap (·.terms)) :=
    Lexicon.mem_vocabulary.mpr ⟨t, ht, rfl⟩
  rw [Lexicon.weigh, lexicon, Lexicon.scoreOf?_map, if_pos hmem]
  rfl

theorem filter_id_eq (hs : (s.chunks.map (·.id)).Nodup) {k : Holding} (hk : k ∈ s.chunks) :
    s.chunks.filter (fun j => j.id == k.id) = [k] := by
  have hids := filter_beq_of_nodup hs k.id
  rw [List.filter_map, if_pos (List.mem_map_of_mem hk)] at hids
  obtain ⟨j, hj, hid⟩ := List.map_eq_singleton_iff.mp hids
  have hmem : j ∈ s.chunks.filter fun j => j.id == k.id := by
    change j ∈ s.chunks.filter ((fun i => i == k.id) ∘ fun j => j.id)
    rw [hj]
    exact List.mem_singleton_self j
  obtain rfl := List.inj_on_of_nodup_map hs (List.mem_of_mem_filter hmem) hk hid
  exact hj

theorem chunkId_of_mem_map_weigh {k : Holding} {t : TermRow} (ht : t ∈ k.terms.map s.weigh) :
    t.chunkId = k.id := by
  obtain ⟨u, hu, rfl⟩ := List.mem_map.mp ht
  change u.chunkId = k.id
  exact Holding.chunkId_of_mem_terms hu

/-- The weighted rows of a chunk are those under its number. -/
theorem filter_terms_lexicon (hs : (s.chunks.map (·.id)).Nodup) {k : Holding} (hk : k ∈ s.chunks) :
    s.lexicon.terms.filter (·.chunkId == k.id) = k.terms.map s.weigh := by
  have hrows : ∀ j ∈ s.chunks, (j.terms.map s.weigh).filter (·.chunkId == k.id) =
      if j.id == k.id then j.terms.map s.weigh else [] :=
    fun _ _ => filter_eq_ite_of_chunkId (fun _ ht => chunkId_of_mem_map_weigh ht) (· == k.id)
  rw [lexicon, List.filter_flatMap, flatMap_eq_flatMap_filter hrows, filter_id_eq hs hk]
  exact List.flatMap_singleton ..

end Holdings

namespace Lexicon.Shows

variable {x : Lexicon} {s : Holdings}

theorem measure_eq (h : x.Shows s) (hs : (s.chunks.map (·.id)).Nodup) {c : ChunkRow}
    (hc : c ∈ x.chunks) {k : Holding} (hk : k ∈ s.chunks) (hck : c.bare = k.row) :
    measure s.lexicon.terms c = s.measured k := by
  have hid : c.id = k.id := congrArg ChunkRow.id hck
  have hcount : c.tokenCount = k.words.length := congrArg ChunkRow.tokenCount hck
  rw [measure, hid, Holdings.filter_terms_lexicon hs hk, Holdings.measured, ← hck]
  by_cases hempty : (k.terms.map s.weigh).isEmpty
  · rw [if_pos hempty]
    have hwords : k.words = [] := by
      rw [List.isEmpty_iff, List.map_eq_nil_iff] at hempty
      exact termRows_eq_nil_iff.mp hempty
    have hzero : c.magnitude = 0 := h.magnitude_eq c hc (by simp [hcount, hwords])
    have hterms : k.terms.map s.weigh = [] := by
      rw [Holding.terms, hwords]
      rfl
    rw [hterms, Holdings.norm_nil, ← hzero]
    rfl
  · rw [if_neg hempty, ← hid]
    rfl

/-- Scores, weights and magnitudes computed anew are those of the chunks held. -/
theorem refresh_eq (h : x.Shows s) (hs : (s.chunks.map (·.id)).Nodup) : x.refresh = s.lexicon := by
  have hscores : (vocabulary x.terms).map (scoreRow x.chunks.length x.terms) =
      s.lexicon.scores := by
    rw [h.vocabulary_eq]
    exact List.map_congr_left fun w _ => h.scoreRow_eq hs w
  have hterms : x.terms.map (weigh s.lexicon.scores) = s.lexicon.terms := by
    have hbare : x.terms.map (weigh s.lexicon.scores) =
        (x.terms.map (·.bare)).map (weigh s.lexicon.scores) := by
      rw [List.map_map]
      rfl
    rw [hbare, h.terms_eq, List.map_congr_left fun t ht => Holdings.weigh_eq ht, List.map_flatMap]
    rfl
  have hchunks : x.chunks.map (measure s.lexicon.terms) = s.lexicon.chunks :=
    map_eq_map_of_map_eq_map h.chunks_eq fun c hc k hk hck => h.measure_eq hs hc hk hck
  rw [Lexicon.refresh]
  -- Without chunks only the scores are removed, but then there are no rows to compute either.
  by_cases hempty : x.chunks.isEmpty
  · rw [if_pos hempty]
    have hnone : s.chunks = [] := by
      rw [← List.map_eq_nil_iff (f := (·.row)), ← h.chunks_eq, List.isEmpty_iff.mp hempty]
      rfl
    have hbare : x.terms = [] := by
      rw [← List.map_eq_nil_iff (f := (·.bare)), h.terms_eq, hnone]
      rfl
    have hempty' : s.lexicon.scores = [] := by simp [Holdings.lexicon, hnone]
    have hlexicon : s.lexicon = { s.lexicon with chunks := [], terms := [], scores := [] } := by
      rw [← hempty']
      simp [Holdings.lexicon, hnone]
    rw [hlexicon, List.isEmpty_iff.mp hempty, hbare, h.files_eq, h.nextFile_eq, h.nextChunk_eq]
    rfl
  · rw [if_neg hempty]
    simp only [hscores, hterms, hchunks, h.files_eq, h.nextFile_eq, h.nextChunk_eq]
    rfl

end Lexicon.Shows

namespace Holdings

variable (s : Holdings)

theorem shows_lexicon : s.lexicon.Shows s where
  files_eq := rfl
  chunks_eq := by
    rw [lexicon, List.map_map]
    rfl
  terms_eq := by
    have hbare : ∀ k : Holding, (k.terms.map s.weigh).map (·.bare) = k.terms := by
      intro k
      have hself := map_bare_termRows k.id k.words
      rw [Holding.terms, List.map_map]
      exact hself
    simp only [lexicon, List.map_flatMap, hbare]
  magnitude_eq := by
    intro c hc hcount
    obtain ⟨k, -, rfl⟩ := List.mem_map.mp hc
    have hwords : k.words = [] := List.length_eq_zero_iff.mp hcount
    have hterms : k.terms.map s.weigh = [] := by
      rw [Holding.terms, hwords]
      rfl
    rw [measured, hterms]
    exact norm_nil
  nextFile_eq := rfl
  nextChunk_eq := rfl

end Holdings

end CodeChunks
