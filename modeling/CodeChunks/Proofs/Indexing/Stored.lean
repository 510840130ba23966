import CodeChunks.Proofs.Indexing.Entries
import CodeChunks.Proofs.Store.Survivors

/-! # What a store holds after the files

A store takes the chunks of a file or leaves everything as it was, and whether it does so depends on
the chunks only. It answers with the chunks that it took last for a path. -/
namespace CodeChunks

theorem Record.lookup_insert (m : Record) (path q : String) (cs : List Chunk) :
    Record.lookup (Assoc.insert path cs m) q = if path = q then cs else m.lookup q := by
  rw [lookup, Assoc.find?_insert]
  split <;> rfl

namespace History

theorem chunksAt_run (calls : List Call) (path : String) :
    (run calls).rows.chunksAt path = ((run calls).kept.lookup path).mapM Chunk.reread := by
  obtain ⟨s, -, hrows, hkept⟩ := exists_holds calls
  rw [hrows, hkept, Holdings.chunksAt_lexicon]

theorem rows_run_persist (calls : List Call) (path : String) (content : Text)
    (language : Option String) (cs : List Chunk) (mtime : Int) :
    (run (calls ++ [.persist path content language cs mtime])).rows =
      ((run calls).rows.persist path content language cs mtime).2 := by
  rw [run_append, step]
  rcases (run calls).rows.persist path content language cs mtime with ⟨_ | _, _⟩ <;> rfl

theorem kept_run_append (calls : List Call) (call : Call) :
    (run (calls ++ [call])).kept = (run calls).kept.after call := by
  obtain ⟨s, hs⟩ := exists_holds calls
  rw [run_append, kept_step hs]

end History

/-- The rows behind the store come from calls on a store that was new. -/
def Store.Held (k : Store) (ds : Databases) : Prop :=
  ∀ x, ds.rows k = .ok x → ∃ calls, x = (History.run calls).rows

namespace Databases

variable {ds : Databases} {k : Store}

theorem isReady_setRows (ds : Databases) (k : Store) (x : Lexicon) :
    ((ds.setRows k x).get k.site).isReady = (ds.get k.site).isReady := by
  rw [setRows, set, get, Assoc.find?_insert, if_pos rfl]
  rfl

theorem rows_setRows {x : Lexicon} (h : ds.rows k = .ok x) (y : Lexicon) :
    (ds.setRows k y).rows k = .ok y := by
  have hready : (ds.get k.site).isReady := by
    by_contra hready
    rw [rows, if_neg hready] at h
    cases h
  rw [rows, isReady_setRows, if_pos hready, setRows, set, get, Assoc.find?_insert, if_pos rfl]
  rfl

theorem chunksAt_of_rows {x : Lexicon} (h : ds.rows k = .ok x) (path : String) :
    ds.chunksAt k path = (x.chunksAt path).mapError .row := by
  rw [chunksAt, h]
  rfl

end Databases

namespace Sink

variable {ds : Databases} {k : Store} {mtime : Int} (path : Path) (content : Text)
  (language : Option String) (cs : List Chunk)

theorem put_of_rows {x : Lexicon} (h : ds.rows k = .ok x) :
    (ofStore k mtime).put path content language cs ds =
      (match Lexicon.refusal? cs mtime with
        | some e => .error ((Store.Fault.ofLexicon e).message?.getD "")
        | none => .ok (),
        ds.setRows k (x.persist path content language cs mtime).2) := by
  simp only [ofStore, Databases.persist, h, Lexicon.persist_eq]
  cases Lexicon.refusal? cs mtime <;> rfl

theorem put_of_not_rows {e : Store.Fault} (h : ds.rows k = .error e) :
    (ofStore k mtime).put path content language cs ds = (.error (e.message?.getD ""), ds) := by
  simp only [ofStore, Databases.persist, h]

theorem steady_ofStore (k : Store) (mtime : Int) : (ofStore k mtime).Steady := by
  intro path content language cs ds path' content' language' cs'
  cases h : ds.rows k with
  | error e => rw [put_of_not_rows path content language cs h]
  | ok x =>
    have h' := Databases.rows_setRows h (x.persist path content language cs mtime).2
    rw [put_of_rows path content language cs h, put_of_rows path' content' language' cs' h,
      put_of_rows path' content' language' cs' h']

/-- Chunks that a store takes are those of their path from then on; all else stays. -/
theorem chunksAt_put (mtime : Int) (hheld : k.Held ds) :
    k.Held ((ofStore k mtime).put path content language cs ds).2 ∧
    ∀ q, ((ofStore k mtime).put path content language cs ds).2.chunksAt k q =
      match ((ofStore k mtime).put path content language cs ds).1 with
      | .ok _ => if path = q then (cs.mapM Chunk.reread).mapError .row else ds.chunksAt k q
      | .error _ => ds.chunksAt k q := by
  cases h : ds.rows k with
  | error e =>
    rw [put_of_not_rows path content language cs h]
    exact ⟨hheld, fun _ => rfl⟩
  | ok x =>
    obtain ⟨calls, rfl⟩ := hheld x h
    have h' := Databases.rows_setRows h
      ((History.run calls).rows.persist path content language cs mtime).2
    have hrows := History.rows_run_persist calls path content language cs mtime
    rw [put_of_rows path content language cs h]
    refine ⟨fun y hy => ⟨_, (Except.ok.inj (hy.symm.trans h')).trans hrows.symm⟩, fun q => ?_⟩
    rw [Databases.chunksAt_of_rows h', Databases.chunksAt_of_rows h, ← hrows, History.chunksAt_run,
      History.chunksAt_run, History.kept_run_append, Record.after]
    cases Lexicon.refusal? cs mtime with
    | some e => rfl
    | none =>
      rw [if_pos Option.isNone_none, Record.lookup_insert]
      by_cases hq : path = q <;> simp only [hq, ↓reduceIte]

end Sink

/-- The entry that was made last for a path. -/
def lastOf? (es : List IndexEntry) (p : Path) : Option IndexEntry :=
  (es.filter (·.path = p)).getLast?

theorem lastOf?_cons (e : IndexEntry) (es : List IndexEntry) (p : Path) :
    lastOf? (e :: es) p = (lastOf? es p).or (if e.path = p then some e else none) := by
  rw [lastOf?, lastOf?, List.filter_cons]
  by_cases hp : e.path = p
  · simp only [hp, decide_true, if_true, List.getLast?_cons]
    cases (es.filter (·.path = p)).getLast? <;> rfl
  · simp only [hp, decide_false, if_false, Option.or_none, Bool.false_eq_true]

namespace Workshop

open Steps

variable {w : Workshop} {σ : Type}

/-- A file changes what a sink holds by its chunks, if by anything. -/
theorem processFile_cases {k : Sink σ} {p : Path} {x y : Session × σ}
    {r : Except IndexFailure IndexEntry} (h : (w.processFile (some k) p).run.run x = (.ok r, y)) :
    (∃ f, r = .error f) ∧ y.2 = x.2 ∨
    ∃ code e, y.2 = (k.put e.path code e.language e.chunks x.2).2 ∧
      r = match (k.put e.path code e.language e.chunks x.2).1 with
        | .ok _ => .ok e
        | .error t => .error ⟨e.path, t⟩ := by
  cases htext : w.files.text p with
  | error e =>
    simp only [processFile, htext] at h
    cases e <;> cases h <;> exact .inl ⟨⟨_, rfl⟩, rfl⟩
  | ok code =>
    simp only [processFile, htext, run_bind, chunkStep_run] at h
    cases hlimited : w.limited with
    | error e =>
      rw [hlimited] at h
      cases h
    | ok limited =>
      rw [hlimited] at h
      dsimp only at h
      cases hchunk : (w.chunk p code limited x.1).1 with
      | error e =>
        rw [hchunk] at h
        cases h
      | ok c =>
        rw [hchunk] at h
        dsimp only at h
        rw [putStep_run] at h
        obtain ⟨hr, hy⟩ := Prod.mk.inj h
        exact .inr ⟨code, _, congrArg Prod.snd hy.symm, (Except.ok.inj hr).symm⟩

/-- A path has the chunks of its last entry, or those that it had before. -/
theorem Turns.chunksAt {k : Store} {mtime : Int} {x z : Session × Databases} {ps : List Path}
    {rs : List (Except IndexFailure IndexEntry)}
    (h : w.Turns (some (Sink.ofStore k mtime)) x ps rs z) (hheld : k.Held x.2) (q : Path) :
    z.2.chunksAt k q = match lastOf? (entriesOf rs) q with
      | some e => (e.chunks.mapM Chunk.reread).mapError .row
      | none => x.2.chunksAt k q := by
  induction h with
  | nil x => rfl
  | @cons x y z p ps r rs hfile _ ih =>
    rcases processFile_cases hfile with ⟨⟨f, rfl⟩, hy⟩ | ⟨code, e, hy, hr⟩
    · rw [hy] at ih
      exact ih hheld
    · obtain ⟨hheld', hchunks⟩ :=
        Sink.chunksAt_put e.path code e.language e.chunks mtime hheld
      rw [← hy] at hheld' hchunks
      rw [ih hheld', hchunks]
      cases hanswer : ((Sink.ofStore k mtime).put e.path code e.language e.chunks x.2).1 with
      | error t =>
        obtain rfl : r = .error ⟨e.path, t⟩ := by rw [hr, hanswer]
        rfl
      | ok u =>
        obtain rfl : r = .ok e := by rw [hr, hanswer]
        have hentries : entriesOf (.ok e :: rs) = e :: entriesOf rs := rfl
        rw [hentries, lastOf?_cons]
        cases lastOf? (entriesOf rs) q with
        | some e' => rfl
        | none =>
          rw [Option.none_or]
          by_cases hq : e.path = q
          · simp only [hq, if_true]
          · simp only [hq, if_false]

end Workshop

end CodeChunks
