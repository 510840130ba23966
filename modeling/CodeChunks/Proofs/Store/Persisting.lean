import CodeChunks.Store.Lexicon

/-! # What storing a file does

A file is stored in full when there is a row for it and for each of its chunks; else nothing
changes. -/
namespace CodeChunks.Lexicon

theorem exists_fault?_iff {c : Chunk} : (∃ e, fault? c = some e) ↔
    (∃ e, Json.writingFault? writingLimits (.obj c.metadata) = some e) ∨
      fits c.startLine = false ∨ fits c.endLine = false := by
  rw [fault?]
  cases Json.writingFault? writingLimits (.obj c.metadata) with
  | some e => simp
  | none => cases fits c.startLine <;> cases fits c.endLine <;> simp

/-- Why a file is not stored: its time has no number, or the first chunk without a row has none. -/
def refusal? (cs : List Chunk) (mtime : Int) : Option Fault :=
  if fits mtime then cs.findSome? fault? else some (.overflow {})

theorem exists_refusal?_iff {cs : List Chunk} {mtime : Int} :
    (∃ e, refusal? cs mtime = some e) ↔ fits mtime = false ∨ ∃ c ∈ cs, ∃ e, fault? c = some e := by
  rw [refusal?]
  cases fits mtime with
  | false => simp
  | true =>
    simp only [↓reduceIte, ← Option.isSome_iff_exists, List.findSome?_isSome_iff]
    simp

theorem refusal?_eq_none_iff {cs : List Chunk} {mtime : Int} :
    refusal? cs mtime = none ↔ fits mtime ∧ ∀ c ∈ cs, fault? c = none := by
  cases h : fits mtime <;> simp [refusal?, h]

def addChunks (x : Lexicon) (fileId : Int) (cs : List Chunk) : Lexicon :=
  cs.foldl (fun x c => x.addChunk fileId c) x

section

variable (x : Lexicon) (fileId : Int)

theorem run_bind {α β : Type} (m : Steps α) (f : α → Steps β) :
    (m >>= f).run x = match m.run x with
      | (.ok a, y) => (f a).run y
      | (.error e, y) => (.error e, y) := by
  rw [ExceptT.run_bind]
  simp only [bind, StateT.bind]
  rcases m.run x with ⟨_ | _, _⟩ <;> rfl

theorem run_modify (f : Lexicon → Lexicon) : (modify f : Steps PUnit).run x = (.ok (), f x) := rfl

theorem run_writeFile (r : FileRow) : (writeFile r).run x =
    if fits r.mtime then (.ok (x.putFile r).1, (x.putFile r).2)
    else (.error (.overflow {}), x) := by
  cases h : fits r.mtime <;> simp [writeFile, h] <;> rfl

theorem run_writeChunk (c : Chunk) : (writeChunk fileId c).run x = match fault? c with
    | some e => (.error e, x)
    | none => (.ok (), x.addChunk fileId c) := by
  rw [writeChunk]
  cases fault? c <;> rfl

/-- Chunks with rows go in, and those behind them come next. -/
theorem run_writeChunks_append {done : List Chunk} (hdone : ∀ c ∈ done, fault? c = none)
    (rest : List Chunk) :
    (writeChunks fileId (done ++ rest)).run x =
      (writeChunks fileId rest).run (x.addChunks fileId done) := by
  induction done generalizing x with
  | nil => rfl
  | cons c cs ih =>
    obtain ⟨hc, hcs⟩ := List.forall_mem_cons.mp hdone
    rw [List.cons_append, writeChunks, run_bind, run_writeChunk, hc]
    exact ih (x.addChunk fileId c) hcs

/-- A file goes in with all its chunks and all scores are computed anew, or the store stays as it
is. -/
theorem persist_eq (path : String) (content : Text) (language : Option String) (cs : List Chunk)
    (mtime : Int) : x.persist path content language cs mtime = match refusal? cs mtime with
      | some e => (.error e, x)
      | none =>
        let (id, y) := x.putFile (fileRow path content language cs mtime)
        (.ok id, ((y.dropChunks [id]).addChunks id cs).refresh) := by
  have hmtime : (fileRow path content language cs mtime).mtime = mtime := rfl
  rw [persist, atomically, persistSteps, run_bind, run_writeFile, hmtime, refusal?]
  cases fits mtime with
  | false => rfl
  | true =>
    generalize x.putFile (fileRow path content language cs mtime) = p
    simp only [↓reduceIte, run_bind, run_modify]
    cases hfault : cs.findSome? fault? with
    | none =>
      have hwrite := run_writeChunks_append (p.2.dropChunks [p.1]) p.1
        (List.findSome?_eq_none_iff.mp hfault) []
      rw [List.append_nil] at hwrite
      rw [hwrite]
      rfl
    | some e =>
      obtain ⟨done, c, rest, rfl, hc, hdone⟩ := List.findSome?_eq_some_iff.mp hfault
      rw [run_writeChunks_append _ _ hdone, writeChunks, run_bind, run_writeChunk, hc]

end

end CodeChunks.Lexicon
