import CodeChunks.Proofs.Json.Documents
import CodeChunks.Proofs.Number.Logarithms
import CodeChunks.Proofs.Store.Lookups
import Mathlib.Data.List.Induction

/-! # A store is a function of its record

After any calls the chunks, the terms and the scores that a store answers are those of the chunks
last stored for each path. -/
namespace CodeChunks

namespace Chunk

/-- The same chunk, with equal metadata. -/
structure Agrees (d c : Chunk) : Prop where
  content_eq : d.content = c.content
  type_eq : d.type = c.type
  startLine_eq : d.startLine = c.startLine
  endLine_eq : d.endLine = c.endLine
  metadata_same : Json.same (.obj d.metadata) (.obj c.metadata)

/-- A chunk that has a type and, as metadata, a document that can be read at all. -/
structure Storable (c : Chunk) : Prop where
  type_ne : c.type ≠ ""
  readable : Json.Readable metadataLimits 0 (.obj c.metadata)

/-- The chunk with a type in place of none. -/
def typed (c : Chunk) : Chunk := { c with type := if c.type = "" then "unknown" else c.type }

/-- A chunk as it is read from its row. -/
def reread (c : Chunk) : Except RowFault Chunk := (Lexicon.chunkRow 0 0 c 0).toChunk

end Chunk

theorem readLine_int (n : Int) : readLine (.int n) = .ok n := by
  rw [readLine, Json.truthy]
  by_cases hzero : n = 0
  · rw [hzero]
    rfl
  · rw [if_pos (bne_iff_ne.mpr hzero)]
    rfl

theorem readMetadata_write {fs : Json.Fields} (h : Json.Readable metadataLimits 0 (.obj fs)) :
    ∃ gs, readMetadata (Json.write (.obj fs)) = .ok gs ∧ Json.same (.obj gs) (.obj fs) := by
  have hnonempty : (Json.write (.obj fs)).isEmpty = false := by
    rw [Json.write, Json.sorted, Json.tokens, List.flatMap_cons]
    rfl
  refine ⟨Json.sortFields (Json.sortedFields fs), ?_, h.same_sorted⟩
  rw [readMetadata, hnonempty, h.readWithin_write]
  rfl

/-- A chunk comes back from its row with another spelling of its metadata, and with a type if it had
none. -/
theorem Chunk.exists_reread {c : Chunk} (h : Json.Readable metadataLimits 0 (.obj c.metadata)) :
    ∃ d, c.reread = .ok d ∧ d.Agrees c.typed := by
  obtain ⟨gs, hread, hsame⟩ := readMetadata_write h
  refine ⟨{ c.typed with metadata := gs }, ?_, rfl, rfl, rfl, rfl, hsame⟩
  have hmetadata : readMetadata (Json.write (.obj c.metadata)) = .ok gs := hread
  simp only [Chunk.reread, ChunkRow.toChunk, LooseRow.toChunk, Lexicon.chunkRow, readLine_int,
    Option.getD_some, hmetadata]
  rfl

theorem Chunk.Storable.reread {c : Chunk} (h : c.Storable) :
    ∃ d, c.reread = .ok d ∧ d.Agrees c := by
  have htyped : c.typed = c := by rw [typed, if_neg h.type_ne]
  obtain ⟨d, hd, hagrees⟩ := exists_reread h.readable
  exact ⟨d, hd, htyped ▸ hagrees⟩

namespace Record

variable (m : Record)

/-- The number of chunks that a term occurs in. -/
def frequency (w : Text) : Nat := m.chunks.countP fun c => (tokenize c.content).contains w

/-- How rare a term is: the logarithm of all chunks by those that it occurs in. -/
def rarity (w : Text) : Float :=
  Logarithm.ln (Binary64.ratio m.chunks.length (m.frequency w))

/-- The row of a term among the terms of a chunk. -/
def termRow (id : Int) (ws : List Text) (w : Text) : TermRow :=
  let tf := Binary64.ratio (ws.count w) ws.length
  ⟨id, w, ws.count w, tf, tf * m.rarity w⟩

/-- The rows of a chunk: each different term once, in the order of the first occurrences. -/
def termRows (id : Int) (c : Chunk) : List TermRow :=
  (tokenize c.content).eraseDups.map (m.termRow id (tokenize c.content))

variable {m} {n : Record}

theorem chunks_eq_full (m : Record) :
    m.chunks = (m.filter fun e => !e.2.isEmpty).flatMap (·.2) := by
  apply flatMap_eq_flatMap_filter
  intro e _
  cases e.2 <;> rfl

/-- The entries with chunks are known from what is looked up. -/
theorem mem_full_iff (hm : (Assoc.keys m).Nodup) {e : String × List Chunk} :
    e ∈ m.filter (fun e => !e.2.isEmpty) ↔ m.lookup e.1 = e.2 ∧ e.2 ≠ [] := by
  have hfind : Assoc.find? e.1 m = some e.2 ↔ e ∈ m := Assoc.find?_eq_some_iff hm
  have hempty : (!e.2.isEmpty) = true ↔ e.2 ≠ [] := by simp
  rw [List.mem_filter, ← hfind, hempty, lookup]
  cases Assoc.find? e.1 m with
  | none =>
    constructor
    · rintro ⟨h, -⟩
      cases h
    · rintro ⟨h, hne⟩
      exact absurd h.symm hne
  | some cs => rw [Option.some.injEq, Option.getD_some]

/-- What is stored for each path decides which chunks there are, up to their order. -/
theorem perm_chunks (hm : (Assoc.keys m).Nodup) (hn : (Assoc.keys n).Nodup)
    (h : ∀ path, m.lookup path = n.lookup path) : m.chunks.Perm n.chunks := by
  -- A path without chunks looks up like an absent one, so only the other entries are the same.
  have hnodup : ∀ {r : Record}, (Assoc.keys r).Nodup → (r.filter fun e => !e.2.isEmpty).Nodup :=
    fun hr => (List.Nodup.of_map _ hr).filter _
  rw [chunks_eq_full m, chunks_eq_full n]
  apply List.Perm.flatMap_right
  rw [List.perm_ext_iff_of_nodup (hnodup hm) (hnodup hn)]
  intro e
  rw [mem_full_iff hm, mem_full_iff hn, h]

theorem rarity_eq (h : m.chunks.Perm n.chunks) (w : Text) : m.rarity w = n.rarity w := by
  rw [rarity, rarity, frequency, frequency, h.countP_eq, h.length_eq]

theorem rarity_near (hlength : m.chunks.length ≤ 2 ^ 1022) {w : Text} (hw : m.frequency w ≠ 0) :
    |Binary64.toRat (m.rarity w) - Real.log (m.chunks.length / m.frequency w)| ≤
      (1 + Real.log (m.chunks.length / m.frequency w)) / 2 ^ 52 :=
  Logarithm.ln_ratio_near (Nat.pos_of_ne_zero hw) List.countP_le_length hlength

theorem tf_near {id : Int} {c : Chunk} (hlength : (tokenize c.content).length ≤ 2 ^ 1022)
    {t : TermRow} (ht : t ∈ m.termRows id c) :
    |Binary64.toRat t.tf - t.count / (tokenize c.content).length| ≤
      (t.count / (tokenize c.content).length) / 2 ^ 53 := by
  obtain ⟨w, hw, rfl⟩ := List.mem_map.mp ht
  have hcount : (tokenize c.content).count w ≤ (tokenize c.content).length := List.count_le_length
  have hpos : 0 < (tokenize c.content).length :=
    List.length_pos_of_mem (List.mem_eraseDups.mp hw)
  exact Binary64.ratio_near (hcount.trans hlength) hpos hlength

end Record

/-- The tables answer with the chunks of a record: chunks come back as they were, terms chunk by
chunk under numbers of their own, and scores count the chunks with a term among all. Shares and
scores are the exact quotients and logarithms but for the rounding. -/
structure Lexicon.Mirrors (x : Lexicon) (m : Record) : Prop where
  chunks : ∀ path, (∀ c ∈ m.lookup path, c.Storable) →
    ∃ ds, x.chunksAt path = .ok ds ∧ List.Forall₂ Chunk.Agrees ds (m.lookup path)
  terms : ∀ path, ∃ ids : List Int, ids.Nodup ∧ ids.length = (m.lookup path).length ∧
    x.termsAt path = (ids.zip (m.lookup path)).flatMap fun e => m.termRows e.1 e.2
  terms_near : ∀ id c, (tokenize c.content).length ≤ 2 ^ 1022 → ∀ t ∈ m.termRows id c,
    |Binary64.toRat t.tf - t.count / (tokenize c.content).length| ≤
      (t.count / (tokenize c.content).length) / 2 ^ 53
  scores : ∀ w, x.idf? w = if m.frequency w = 0 then none else some (m.rarity w)
  scores_near : m.chunks.length ≤ 2 ^ 1022 → ∀ w idf, x.idf? w = some idf →
    |Binary64.toRat idf - Real.log (m.chunks.length / m.frequency w)| ≤
      (1 + Real.log (m.chunks.length / m.frequency w)) / 2 ^ 52

def TermRow.renamed (rename : Int → Int) (t : TermRow) : TermRow :=
  { t with chunkId := rename t.chunkId }

/-- Two stores give the same answers, up to the numbers of their chunks. -/
structure Lexicon.Alike (x y : Lexicon) : Prop where
  chunks : ∀ path, y.chunksAt path = x.chunksAt path
  terms : ∃ rename : Int → Int,
    (∀ c ∈ x.chunks, ∀ d ∈ x.chunks, rename c.id = rename d.id → c.id = d.id) ∧
    ∀ path, y.termsAt path = (x.termsAt path).map (·.renamed rename)
  scores : ∀ w, y.idf? w = x.idf? w

namespace Holdings

variable {s t : Holdings}

theorem frequency_record (hs : s.Sound) (w : Text) : s.record.frequency w = s.frequency w := by
  rw [Record.frequency, (perm_chunks_record hs).countP_eq, List.countP_map, frequency]
  apply List.countP_congr
  intro k _
  exact ⟨fun h => decide_eq_true (List.contains_iff_mem.mp h),
    fun h => List.contains_iff_mem.mpr (of_decide_eq_true h)⟩

theorem rarity_record (hs : s.Sound) (w : Text) : s.record.rarity w = s.rarity w := by
  rw [Record.rarity, frequency_record hs, (perm_chunks_record hs).length_eq, List.length_map]
  rfl

theorem idf?_record (hs : s.Sound) (w : Text) : s.lexicon.idf? w =
    if s.record.frequency w = 0 then none else some (s.record.rarity w) := by
  rw [idf?_lexicon, frequency_record hs, rarity_record hs]

theorem map_weigh_terms (hs : s.Sound) (k : Holding) :
    k.terms.map s.weigh = s.record.termRows k.id k.chunk := by
  rw [Holding.terms, CodeChunks.termRows, termCounts, List.map_map, List.map_map, Record.termRows]
  apply List.map_congr_left
  intro w _
  rw [Record.termRow, rarity_record hs]
  rfl

theorem chunksAt_lexicon (s : Holdings) (path : String) :
    s.lexicon.chunksAt path = (s.record.lookup path).mapM Chunk.reread := by
  rw [Lexicon.chunksAt, chunkRowsAt_lexicon, lookup_record, List.mapM_map, List.mapM_map]
  rfl

theorem exists_mapM_reread {R : Chunk → Chunk → Prop} {cs : List Chunk}
    (h : ∀ c ∈ cs, ∃ d, c.reread = .ok d ∧ R d c) :
    ∃ ds, cs.mapM Chunk.reread = .ok ds ∧ List.Forall₂ R ds cs := by
  induction cs with
  | nil => exact ⟨[], rfl, .nil⟩
  | cons c cs ih =>
    obtain ⟨d, hd, hagrees⟩ := h c List.mem_cons_self
    obtain ⟨ds, hds, hall⟩ := ih fun c hc => h c (List.mem_cons_of_mem _ hc)
    refine ⟨d :: ds, ?_, .cons hagrees hall⟩
    rw [List.mapM_cons, hd, hds]
    rfl

theorem termsAt_zip (hs : s.Sound) (path : String) :
    s.lexicon.termsAt path =
      ((s.idsAt path).zip (s.record.lookup path)).flatMap fun e => s.record.termRows e.1 e.2 := by
  rw [termsAt_lexicon hs, idsAt, lookup_record, List.zip_map', List.flatMap_map]
  exact List.flatMap_congr fun k _ => map_weigh_terms hs k

theorem Sound.mirrors (hs : s.Sound) : s.lexicon.Mirrors s.record where
  chunks := by
    intro path h
    rw [chunksAt_lexicon]
    exact exists_mapM_reread fun c hc => (h c hc).reread
  terms := by
    intro path
    exact ⟨s.idsAt path, nodup_idsAt hs path, s.length_idsAt path, termsAt_zip hs path⟩
  terms_near := fun _ _ hlength _ ht => Record.tf_near hlength ht
  scores := idf?_record hs
  scores_near := by
    intro hlength w idf hidf
    rw [idf?_record hs] at hidf
    by_cases hw : s.record.frequency w = 0
    · rw [if_pos hw] at hidf
      cases hidf
    · rw [if_neg hw] at hidf
      cases hidf
      exact Record.rarity_near hlength hw

/-! ## Stores with the same record -/

theorem exists_map_eq {xs ys : List Int} (hxs : xs.Nodup) (hlength : xs.length = ys.length) :
    ∃ f : Int → Int, xs.map f = ys := by
  induction xs generalizing ys with
  | nil => exact ⟨id, (List.length_eq_zero_iff.mp hlength.symm).symm⟩
  | cons x xs ih =>
    obtain ⟨hx, hxs⟩ := List.nodup_cons.mp hxs
    cases ys with
    | nil => cases hlength
    | cons y ys =>
      obtain ⟨f, hf⟩ := ih hxs (Nat.succ.inj hlength)
      refine ⟨Function.update f x y, ?_⟩
      have hold : ∀ z ∈ xs, Function.update f x y z = f z := by
        intro z hz
        have hzx : z ≠ x := fun h => hx (h ▸ hz)
        exact Function.update_of_ne hzx y f
      rw [List.map_cons, Function.update_self, List.map_congr_left hold, hf]

theorem map_eq_of_map_flatMap_eq {α β γ : Type} {xs : List α} {g : α → List β} {g' : α → List γ}
    {f : β → γ} (hlength : ∀ x ∈ xs, (g x).length = (g' x).length)
    (h : (xs.flatMap g).map f = xs.flatMap g') : ∀ x ∈ xs, (g x).map f = g' x := by
  induction xs with
  | nil => nofun
  | cons x xs ih =>
    rw [List.flatMap_cons, List.flatMap_cons, List.map_append] at h
    have hx : ((g x).map f).length = (g' x).length := by
      rw [List.length_map, hlength x List.mem_cons_self]
    obtain ⟨hhead, htail⟩ := List.append_inj h hx
    have hrest := ih (fun y hy => hlength y (List.mem_cons_of_mem x hy)) htail
    intro y hy
    rcases List.mem_cons.mp hy with rfl | hy
    · exact hhead
    · exact hrest y hy

/-- Numbers of the chunks of a store that go to those of another one, path by path. -/
theorem exists_rename (hs : s.Sound) (ht : t.Sound)
    (h : ∀ path, s.record.lookup path = t.record.lookup path) :
    ∃ rename : Int → Int,
      (∀ j ∈ s.chunks, ∀ k ∈ s.chunks, rename j.id = rename k.id → j.id = k.id) ∧
      ∀ path, (s.idsAt path).map rename = t.idsAt path := by
  have hlength : ∀ path, (s.idsAt path).length = (t.idsAt path).length := by
    intro path
    rw [length_idsAt, length_idsAt, h]
  -- The files may have come in different orders, so the numbers are compared along the paths of one
  -- of the stores.
  have htotal : ((s.files.map (·.path)).flatMap s.idsAt).length =
      ((s.files.map (·.path)).flatMap t.idsAt).length := by
    rw [List.length_flatMap, List.length_flatMap, List.map_congr_left fun path _ => hlength path]
  obtain ⟨rename, hrename⟩ := exists_map_eq (nodup_flatMap_idsAt hs hs.paths_nodup) htotal
  refine ⟨rename, ?_, ?_⟩
  · intro j hj k hk
    have hto := nodup_flatMap_idsAt ht hs.paths_nodup
    exact List.inj_on_of_nodup_map (hrename ▸ hto) (mem_flatMap_idsAt hs hj)
      (mem_flatMap_idsAt hs hk)
  · intro path
    by_cases hpath : path ∈ s.files.map (·.path)
    · exact map_eq_of_map_flatMap_eq (fun path _ => hlength path) hrename path hpath
    · have hnone : s.idsAt path = [] := by rw [idsAt, heldAt_eq_nil hpath, List.map_nil]
      have hnone' : t.idsAt path = [] := by
        rw [← List.length_eq_zero_iff, ← hlength, hnone, List.length_nil]
      rw [hnone, hnone', List.map_nil]

theorem Sound.alike (hs : s.Sound) (ht : t.Sound)
    (h : ∀ path, s.record.lookup path = t.record.lookup path) : s.lexicon.Alike t.lexicon := by
  have hkeys : ∀ {r : Holdings}, r.Sound → (Assoc.keys r.record).Nodup := by
    intro r hr
    rw [keys_record]
    exact hr.paths_nodup
  have hchunks := Record.perm_chunks (hkeys hs) (hkeys ht) h
  have hrarity := Record.rarity_eq hchunks
  obtain ⟨rename, hinj, hids⟩ := exists_rename hs ht h
  constructor
  case chunks =>
    intro path
    rw [chunksAt_lexicon, chunksAt_lexicon, h]
  case terms =>
    refine ⟨rename, ?_, ?_⟩
    · intro c hc d hd
      obtain ⟨j, hj, rfl⟩ := List.mem_map.mp hc
      obtain ⟨k, hk, rfl⟩ := List.mem_map.mp hd
      exact hinj j hj k hk
    · intro path
      have hrow : ∀ id c, t.record.termRows (rename id) c =
          (s.record.termRows id c).map (·.renamed rename) := by
        intro id c
        rw [Record.termRows, Record.termRows, List.map_map]
        apply List.map_congr_left
        intro w _
        rw [Record.termRow, ← hrarity]
        rfl
      rw [termsAt_zip hs, termsAt_zip ht, ← hids, ← h, List.zip_map_left, List.flatMap_map,
        List.map_flatMap]
      exact List.flatMap_congr fun e _ => hrow e.1 e.2
  case scores =>
    intro w
    rw [hs.mirrors.scores, ht.mirrors.scores, ← hrarity, Record.frequency, Record.frequency,
      hchunks.countP_eq]

end Holdings

/-- The paths that a call is about. -/
def Call.paths : Call → List String
  | .persist path .. => [path]
  | .delete paths => paths

/-- The record after a call: a file is stored when there is a row for it and for each of its chunks,
and removed in any case. -/
def Record.after (m : Record) : Call → Record
  | .persist path _ _ cs mtime =>
    if (Lexicon.refusal? cs mtime).isNone then Assoc.insert path cs m else m
  | .delete paths => m.without paths

theorem Record.lookup_after (m : Record) {call : Call} {path : String} (hpath : path ∉ call.paths) :
    (m.after call).lookup path = m.lookup path := by
  cases call with
  | persist p content language cs mtime =>
    have hne : p ≠ path := fun heq => hpath (heq ▸ List.mem_singleton_self p)
    rw [after]
    cases Lexicon.refusal? cs mtime with
    | some e => rfl
    | none => rw [if_pos Option.isNone_none, lookup, Assoc.find?_insert, if_neg hne, lookup]
  | delete paths =>
    have hkept : (!paths.contains path) = true := by simpa [Call.paths] using hpath
    rw [after, lookup, without, Assoc.find?_filter (fun p => !paths.contains p), hkept, if_pos rfl,
      lookup]

namespace History

theorem run_append (calls : List Call) (call : Call) :
    run (calls ++ [call]) = (run calls).step call := List.foldl_concat ..

theorem kept_step {h : History} {s : Holdings} (hs : h.Holds s) (call : Call) :
    (h.step call).kept = h.kept.after call := by
  obtain ⟨hsound, hrows, -⟩ := hs
  cases call with
  | persist path content language cs mtime =>
    rw [step, hrows, Holdings.persist_lexicon hsound, Record.after]
    cases Lexicon.refusal? cs mtime <;> rfl
  | delete paths => rfl

/-- Which calls are answered does not depend on the tables. -/
theorem kept_run (calls : List Call) : (run calls).kept = calls.foldl Record.after [] := by
  induction calls using List.reverseRecOn with
  | nil => rfl
  | append_singleton calls call ih =>
    obtain ⟨s, hs⟩ := exists_holds calls
    rw [run_append, kept_step hs, ih, List.foldl_concat]

/-- After any calls a store answers what its record says, a store with the same record answers the
same, and a call about some paths changes no chunks of other paths. -/
theorem run_mirrors (calls : List Call) :
    (run calls).kept = calls.foldl Record.after [] ∧
    (run calls).rows.Mirrors (run calls).kept ∧
    (∀ others, (∀ path, (run calls).kept.lookup path = (run others).kept.lookup path) →
      (run calls).rows.Alike (run others).rows) ∧
    ∀ call path, path ∉ call.paths →
      ((run calls).step call).rows.chunksAt path = (run calls).rows.chunksAt path := by
  obtain ⟨s, hs⟩ := exists_holds calls
  obtain ⟨hsound, hrows, hkept⟩ := id hs
  refine ⟨kept_run calls, ?_, ?_, ?_⟩
  · rw [hrows, hkept]
    exact hsound.mirrors
  · intro others h
    obtain ⟨t, htsound, htrows, htkept⟩ := exists_holds others
    rw [hrows, htrows]
    exact hsound.alike htsound (by rwa [hkept, htkept] at h)
  · intro call path hpath
    obtain ⟨t, -, htrows, htkept⟩ := hs.step call
    have hlookup := Record.lookup_after (run calls).kept hpath
    rw [← kept_step hs, htkept, hkept] at hlookup
    rw [htrows, hrows, Holdings.chunksAt_lexicon, Holdings.chunksAt_lexicon, hlookup]

/-- A file stored anew after others, of which one is removed then. One of the two chunks that are
left has the term `alpha`, so that its score is the logarithm of two. -/
theorem run_mirrors_replaced :
    let c : Chunk := ⟨"alpha beta alpha".toList, "function", 1, 2, [("name", .str "f")]⟩
    let d : Chunk := ⟨"gamma".toList, "class", 3, 3, []⟩
    let calls : List Call :=
      [.persist "a" [] none [d] 0, .persist "b" [] none [c, d] 0, .persist "c" [] none [d] 0,
        .persist "a" [] none [c] 0, .delete ["b"]]
    let others : List Call := [.persist "c" [] none [d] 0, .persist "a" [] none [c] 0]
    (∃ ds, (run calls).rows.chunksAt "a" = .ok ds ∧ List.Forall₂ Chunk.Agrees ds [c]) ∧
    (∃ idf, (run calls).rows.idf? "alpha".toList = some idf ∧
      |Binary64.toRat idf - Real.log 2| ≤ (1 + Real.log 2) / 2 ^ 52) ∧
    (run calls).rows.Alike (run others).rows ∧
    ((run calls).step (.delete ["b"])).rows.chunksAt "a" = (run calls).rows.chunksAt "a" := by
  intro c d calls others
  obtain ⟨hkept, hmirrors, halike, hframe⟩ := run_mirrors calls
  have hc : c.Storable := by
    refine ⟨by decide, ?_⟩
    apply Json.Readable.obj 0 _ (by decide) (by decide)
    intro f hf
    rw [List.mem_singleton.mp hf]
    exact .str 1 "f"
  have hrows : ∀ e ∈ [c, d], Lexicon.fault? e = none := by
    simp [c, d, Lexicon.fault?, Lexicon.fits, Json.writingFault?, Json.sorted, Json.sortedFields,
      Json.sortFields, Json.beyond?, Json.fieldBeyond?, writingLimits]
  have hstored : ∀ cs ⊆ [c, d], Lexicon.refusal? cs 0 = none := fun cs hcs =>
    Lexicon.refusal?_eq_none_iff.mpr ⟨by decide, fun e he => hrows e (hcs he)⟩
  have hafter : ∀ (m : Record) path, ∀ cs ⊆ [c, d],
      m.after (.persist path [] none cs 0) = Assoc.insert path cs m := by
    intro m path cs hcs
    rw [Record.after, hstored cs hcs]
    rfl
  have hcalls : (run calls).kept = [("a", [c]), ("c", [d])] := by
    rw [hkept]
    simp only [calls, List.foldl_cons, List.foldl_nil]
    rw [hafter _ _ [d] (by simp), hafter _ _ [c, d] (by simp), hafter _ _ [d] (by simp),
      hafter _ _ [c] (by simp)]
    rfl
  have hothers : (run others).kept = [("c", [d]), ("a", [c])] := by
    rw [kept_run]
    simp only [others, List.foldl_cons, List.foldl_nil]
    rw [hafter _ _ [d] (by simp), hafter _ _ [c] (by simp)]
    rfl
  have hlookup : (run calls).kept.lookup "a" = [c] := by
    rw [hcalls]
    rfl
  have hfrequency : (run calls).kept.frequency "alpha".toList = 1 := by
    rw [hcalls]
    decide +kernel
  refine ⟨?_, ?_, ?_, hframe _ _ (by decide)⟩
  · have hchunks := hmirrors.chunks "a"
    rw [hlookup] at hchunks
    exact hchunks fun e he => List.mem_singleton.mp he ▸ hc
  · have hscore := hmirrors.scores "alpha".toList
    rw [hfrequency, if_neg Nat.one_ne_zero] at hscore
    have hlength : (run calls).kept.chunks.length = 2 := by
      rw [hcalls]
      rfl
    have hsmall : (run calls).kept.chunks.length ≤ 2 ^ 1022 :=
      hlength.trans_le (le_self_pow₀ one_le_two (by norm_num))
    have hnear := hmirrors.scores_near hsmall _ _ hscore
    rw [hfrequency, hlength, Nat.cast_one, div_one] at hnear
    exact ⟨_, hscore, hnear⟩
  · apply halike
    intro path
    rw [hcalls, hothers, Record.lookup, Record.lookup]
    by_cases ha : path = "a"
    · rw [ha]
      rfl
    · by_cases hc : path = "c" <;> simp [Assoc.find?, Ne.symm ha, hc, eq_comm]

end History

end CodeChunks
