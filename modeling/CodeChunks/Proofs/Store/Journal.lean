import CodeChunks.Proofs.Assoc
import CodeChunks.Proofs.Steps
import CodeChunks.Proofs.Store.Persisting
import CodeChunks.Store.Connection

/-! # What a failing call has written is undone

The statements of a call write to the tables one after another. The first of them opens a
transaction, which remembers the tables as they were, and they come back when a statement fails,
however much has been written by then. So a call that fails leaves the databases as it found them,
and no later call can tell that it was made. -/
namespace CodeChunks

/-- The tables as the statements of a call find them, and those to go back to once a transaction is
open. -/
structure Journal where
  tables : Lexicon
  mark : Option Lexicon := none

namespace Journal

open Lexicon (Fault fault? fits refusal?)
open Steps

def begin (j : Journal) : Journal := { j with mark := some (j.mark.getD j.tables) }

/-- Undoes what the open transaction has done. -/
def rollback (j : Journal) : Lexicon := j.mark.getD j.tables

/-- Statements one after another until one fails. -/
abbrev Statements := ExceptT Fault (StateM Journal)

/-- A statement that changes rows, given whether its numbers fit. It opens a transaction unless one
is open. -/
def change (fitting : Bool) (f : Lexicon → Lexicon) : Statements Unit := do
  modify begin
  if !fitting then throw (.overflow {})
  modify fun j => { j with tables := f j.tables }

def putFile (r : FileRow) : Statements Int := do
  let id := ((← get).tables.putFile r).1
  change (fits r.mtime) fun x => (x.putFile r).2
  return id

def deleteTerms (fileIds : List Int) : Statements Unit :=
  change true fun x =>
    let gone := (x.chunks.filter fun c => fileIds.contains c.fileId).map (·.id)
    { x with terms := x.terms.filter fun t => !gone.contains t.chunkId }

def deleteChunks (fileIds : List Int) : Statements Unit :=
  change true fun x => { x with chunks := x.chunks.filter fun c => !fileIds.contains c.fileId }

/-- The metadata of a chunk are written before its row goes to the tables. -/
def insertChunk (fileId : Int) (c : Chunk) : Statements Int := do
  match Json.writingFault? writingLimits (.obj c.metadata) with
  | some e => throw (.metadata e)
  | none =>
    let id := (← get).tables.nextChunk
    change (fits c.startLine && fits c.endLine) fun x => { x with
      chunks := x.chunks ++ [Lexicon.chunkRow id fileId c (tokenize c.content).length]
      nextChunk := id + 1 }
    return id

def insertTerms (ts : List TermRow) : Statements Unit :=
  if ts.isEmpty then return else change true fun x => { x with terms := x.terms ++ ts }

def insertChunks (fileId : Int) : List Chunk → Statements Unit
  | [] => return
  | c :: cs => do
    let id ← insertChunk fileId c
    insertTerms (termRows id (tokenize c.content))
    insertChunks fileId cs

/-- The scores are removed and, when there are chunks, computed anew with all that depends on
them. -/
def refresh : Statements Unit := do
  let empty := (← get).tables.chunks.isEmpty
  change true fun x => { x with scores := [] }
  if empty then return
  change true fun x => { x with
    scores := (Lexicon.vocabulary x.terms).map (Lexicon.scoreRow x.chunks.length x.terms) }
  change true fun x => { x with terms := x.terms.map (Lexicon.weigh x.scores) }
  change true fun x => { x with chunks := x.chunks.map (Lexicon.measure x.terms) }

/-- The statements that replace everything stored for a path. -/
def persist (r : FileRow) (cs : List Chunk) : Statements Int := do
  let id ← putFile r
  deleteTerms [id]
  deleteChunks [id]
  insertChunks id cs
  refresh
  return id

/-- What a call comes to: its changes are taken, or undone when it has failed. -/
def settle {α : Type} : Except Fault α × Journal → Except Fault α × Lexicon
  | (.ok a, j) => (.ok a, j.tables)
  | (.error e, j) => (.error e, j.rollback)

section

variable (x y : Lexicon)

theorem run_change (fitting : Bool) (f : Lexicon → Lexicon) (mark : Option Lexicon) :
    (change fitting f).run.run ⟨y, mark⟩ = if fitting then (.ok (), ⟨f y, some (mark.getD y)⟩)
      else (.error (.overflow {}), ⟨y, some (mark.getD y)⟩) := by
  cases fitting <;> rfl

theorem run_putFile (r : FileRow) : (putFile r).run.run ⟨x, none⟩ =
    if fits r.mtime then (.ok (x.putFile r).1, ⟨(x.putFile r).2, some x⟩)
    else (.error (.overflow {}), ⟨x, some x⟩) := by
  rw [putFile, run_bind, run_get]
  dsimp only
  rw [run_bind, run_change]
  cases fits r.mtime <;> rfl

theorem run_drop (fileIds : List Int) :
    (do deleteTerms fileIds; deleteChunks fileIds).run.run ⟨y, some x⟩ =
      (.ok (), ⟨y.dropChunks fileIds, some x⟩) := rfl

theorem run_insertTerms (ts : List TermRow) : (insertTerms ts).run.run ⟨y, some x⟩ =
    (.ok (), ⟨{ y with terms := y.terms ++ ts }, some x⟩) := by
  cases ts with
  | nil =>
    rw [List.append_nil]
    rfl
  | cons t ts => rfl

theorem run_insertChunk (fileId : Int) (c : Chunk) :
    (do let id ← insertChunk fileId c; insertTerms (termRows id (tokenize c.content))).run.run
      ⟨y, some x⟩ = match fault? c with
        | some e => (.error e, ⟨y, some x⟩)
        | none => (.ok (), ⟨y.addChunk fileId c, some x⟩) := by
  rw [run_bind, insertChunk, fault?]
  cases Json.writingFault? writingLimits (.obj c.metadata) with
  | some e => rfl
  | none =>
    dsimp only
    rw [run_bind, run_get]
    dsimp only
    rw [run_bind, run_change]
    cases fits c.startLine && fits c.endLine with
    | false => rfl
    | true => exact run_insertTerms x _ _

theorem run_insertChunks_cons (fileId : Int) (c : Chunk) (cs : List Chunk) :
    (insertChunks fileId (c :: cs)).run.run ⟨y, some x⟩ = match fault? c with
      | some e => (.error e, ⟨y, some x⟩)
      | none => (insertChunks fileId cs).run.run ⟨y.addChunk fileId c, some x⟩ := by
  have hstep : insertChunks fileId (c :: cs) =
      (do let id ← insertChunk fileId c; insertTerms (termRows id (tokenize c.content))) >>=
        fun _ => insertChunks fileId cs := by
    rw [insertChunks, bind_assoc]
  rw [hstep, run_bind, run_insertChunk]
  cases fault? c <;> rfl

/-- Chunks with rows go in, and those behind them come next. -/
theorem run_insertChunks_append (fileId : Int) {done : List Chunk}
    (hdone : ∀ c ∈ done, fault? c = none) (rest : List Chunk) :
    (insertChunks fileId (done ++ rest)).run.run ⟨y, some x⟩ =
      (insertChunks fileId rest).run.run ⟨y.addChunks fileId done, some x⟩ := by
  induction done generalizing y with
  | nil => rfl
  | cons c cs ih =>
    obtain ⟨hc, hcs⟩ := List.forall_mem_cons.mp hdone
    rw [List.cons_append, run_insertChunks_cons, hc]
    exact ih (y.addChunk fileId c) hcs

theorem run_refresh : refresh.run.run ⟨y, some x⟩ = (.ok (), ⟨y.refresh, some x⟩) := by
  rw [refresh, run_bind, run_get, Lexicon.refresh]
  dsimp only
  cases y.chunks.isEmpty <;> rfl

end

/-- What stands in the tables when a call fails with a fault: nothing new, as the time of the file
has no number, or the file without its old chunks and with the new ones before the first that has no
row. -/
inductive Halted (x : Lexicon) (r : FileRow) (cs : List Chunk) : Fault → Lexicon → Prop
  | file (time : fits r.mtime = false) : Halted x r cs (.overflow {}) x
  | chunk (done : List Chunk) (c : Chunk) (rest : List Chunk) (e : Fault) (time : fits r.mtime)
      (split : cs = done ++ c :: rest) (held : ∀ c ∈ done, fault? c = none)
      (fault : fault? c = some e) :
      Halted x r cs e
        (((x.putFile r).2.dropChunks [(x.putFile r).1]).addChunks (x.putFile r).1 done)

/-- All statements of a call go through, or the call halts with the old tables to go back to. -/
theorem run_persist (x : Lexicon) (r : FileRow) (cs : List Chunk) :
    match refusal? cs r.mtime with
    | some e => ∃ y, Halted x r cs e y ∧ (persist r cs).run.run ⟨x, none⟩ = (.error e, ⟨y, some x⟩)
    | none => (persist r cs).run.run ⟨x, none⟩ =
        (.ok (x.putFile r).1, ⟨(((x.putFile r).2.dropChunks [(x.putFile r).1]).addChunks
          (x.putFile r).1 cs).refresh, some x⟩) := by
  rw [persist, run_bind, run_putFile, refusal?]
  cases htime : fits r.mtime with
  | false => exact ⟨x, .file htime, rfl⟩
  | true =>
    have hdrop : ∀ id : Int, (do
        deleteTerms [id]
        deleteChunks [id]
        insertChunks id cs
        refresh
        return id : Statements Int) = (do deleteTerms [id]; deleteChunks [id]) >>= fun _ => do
          insertChunks id cs
          refresh
          return id := by
      intro id
      rw [bind_assoc]
    simp only [↓reduceIte]
    rw [hdrop, run_bind, run_drop]
    dsimp only
    rw [run_bind]
    generalize hy : (x.putFile r).2.dropChunks [(x.putFile r).1] = y
    cases hfault : cs.findSome? fault? with
    | none =>
      have hinsert := run_insertChunks_append x y (x.putFile r).1
        (List.findSome?_eq_none_iff.mp hfault) []
      rw [List.append_nil] at hinsert
      have hnil : (insertChunks (x.putFile r).1 []).run.run
          ⟨y.addChunks (x.putFile r).1 cs, some x⟩ =
            (.ok (), ⟨y.addChunks (x.putFile r).1 cs, some x⟩) := rfl
      rw [hinsert, hnil]
      dsimp only
      rw [run_bind, run_refresh]
      rfl
    | some e =>
      obtain ⟨done, c, rest, rfl, hc, hdone⟩ := List.findSome?_eq_some_iff.mp hfault
      rw [run_insertChunks_append _ _ _ hdone, run_insertChunks_cons, hc]
      exact ⟨_, hy ▸ .chunk done c rest e htime rfl hdone hc, rfl⟩

end Journal

end CodeChunks
