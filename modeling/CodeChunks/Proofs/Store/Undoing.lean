import CodeChunks.Proofs.Store.Journal

/-! # A store cannot tell that a failing call was made

Requests are answered one after another by the databases behind any stores. A file that cannot be
stored is refused, and every other request is answered as if that one had been left out. -/
namespace CodeChunks.Databases

open Lexicon (fits refusal?)
open Store (Fault)

/-- A call on a store. -/
inductive Request where
  | persist (s : Store) (path : String) (content : Text) (language : Option String)
      (cs : List Chunk) (mtime : Int)
  | delete (s : Store) (paths : List String)
  | chunks (s : Store) (path : String)
  | terms (s : Store) (path : String)
  | idf (s : Store) (w : Text)

inductive Answer where
  | stored (r : Except Fault Int)
  | deleted (r : Except Fault Unit)
  | chunks (r : Except Fault (List Chunk))
  | terms (r : Except Fault (List TermRow))
  | idf (r : Except Fault (Option Float))

def respond (ds : Databases) : Request → Answer × Databases
  | .persist s path content language cs mtime =>
    let (r, ds) := ds.persist s path content language cs mtime
    (.stored r, ds)
  | .delete s paths =>
    let (r, ds) := ds.delete s paths
    (.deleted r, ds)
  | .chunks s path => (.chunks (ds.chunksAt s path), ds)
  | .terms s path => (.terms ((ds.rows s).map (·.termsAt path)), ds)
  | .idf s w => (.idf ((ds.rows s).map (·.idf? w)), ds)

/-- The answers to requests one after another, and the databases that they leave. -/
def session (ds : Databases) : List Request → List Answer × Databases
  | [] => ([], ds)
  | q :: qs =>
    ((ds.respond q).1 :: ((ds.respond q).2.session qs).1, ((ds.respond q).2.session qs).2)

variable (ds : Databases)

theorem session_append (qs rs : List Request) : ds.session (qs ++ rs) =
    ((ds.session qs).1 ++ ((ds.session qs).2.session rs).1,
      ((ds.session qs).2.session rs).2) := by
  induction qs generalizing ds with
  | nil => rfl
  | cons q qs ih =>
    rw [List.cons_append, session, ih]
    rfl

/-- Rows that are written back as they were leave the databases as they were. -/
theorem setRows_eq_self {s : Store} {x : Lexicon} (h : ds.rows s = .ok x) :
    ds.setRows s x = ds := by
  rw [rows] at h
  by_cases hready : (ds.get s.site).isReady
  · rw [if_pos hready] at h
    cases h
    cases hfind : Assoc.find? s.site ds.table with
    | none =>
      -- an empty database has no tables to hold rows
      rw [get, hfind] at hready
      exact absurd hready (by decide)
    | some db =>
      have hget : ds.get s.site = db := by rw [get, hfind]; rfl
      rw [setRows, set, hget, Assoc.insert_eq_self hfind]
  · rw [if_neg hready] at h
    cases h

variable (s : Store) (path : String) (content : Text) (language : Option String) (cs : List Chunk)
  (mtime : Int)

/-- A file is refused when its store has no tables, when its time or a line of a chunk has no
number, or when the metadata of a chunk cannot be written. -/
theorem persist_refused_iff : (∃ e, (ds.persist s path content language cs mtime).1 = .error e) ↔
    (ds.get s.site).isReady = false ∨ fits mtime = false ∨ ∃ c ∈ cs,
      (∃ e, Json.writingFault? writingLimits (.obj c.metadata) = some e) ∨
        fits c.startLine = false ∨ fits c.endLine = false := by
  simp only [← Lexicon.exists_fault?_iff, ← Lexicon.exists_refusal?_iff]
  rw [persist, rows]
  cases (ds.get s.site).isReady with
  | false => simp
  | true =>
    simp only [↓reduceIte, Lexicon.persist_eq, reduceCtorEq, false_or]
    cases refusal? cs mtime <;> simp

theorem persist_refused {e : Fault} {ds' : Databases}
    (h : ds.persist s path content language cs mtime = (.error e, ds')) : ds' = ds := by
  rw [persist] at h
  cases hrows : ds.rows s with
  | error e =>
    rw [hrows] at h
    cases h
    rfl
  | ok x =>
    rw [hrows] at h
    dsimp only at h
    rw [Lexicon.persist_eq] at h
    cases hfault : refusal? cs mtime with
    | none =>
      rw [hfault] at h
      cases h
    | some e =>
      rw [hfault] at h
      cases h
      exact ds.setRows_eq_self hrows

/-- Storing a file is what its statements come to in a transaction. -/
theorem persist_eq_settle (x : Lexicon) : x.persist path content language cs mtime =
    Journal.settle ((Journal.persist (Lexicon.fileRow path content language cs mtime) cs).run.run
      ⟨x, none⟩) := by
  have hrun := Journal.run_persist x (Lexicon.fileRow path content language cs mtime) cs
  have hmtime : (Lexicon.fileRow path content language cs mtime).mtime = mtime := rfl
  rw [hmtime] at hrun
  rw [Lexicon.persist_eq]
  cases hfault : refusal? cs mtime with
  | none =>
    rw [hfault] at hrun
    rw [hrun]
    rfl
  | some e =>
    rw [hfault] at hrun
    obtain ⟨y, -, hy⟩ := hrun
    rw [hy]
    rfl

/-- After any requests, a file is refused when its store has no tables, when the time of the file or
a line of a chunk, however late in the list, has no number in them, or when the metadata of a chunk
cannot be written. Its statements have then gone up to the one that fails, and all of them are
undone: the databases are as before, and later requests are answered as if this one had been left
out. -/
theorem persist_undone (before : List Request) :
    let mid := (ds.session before).2
    let r := Lexicon.fileRow path content language cs mtime
    ((∃ e, (mid.persist s path content language cs mtime).1 = .error e) ↔
      (mid.get s.site).isReady = false ∨ fits mtime = false ∨ ∃ c ∈ cs,
        (∃ e, Json.writingFault? writingLimits (.obj c.metadata) = some e) ∨
          fits c.startLine = false ∨ fits c.endLine = false) ∧
    (∀ x, mid.rows s = .ok x →
      x.persist path content language cs mtime =
        Journal.settle ((Journal.persist r cs).run.run ⟨x, none⟩) ∧
      ∀ e j, (Journal.persist r cs).run.run ⟨x, none⟩ = (.error e, j) →
        Journal.Halted x r cs e j.tables ∧ j.rollback = x) ∧
    ∀ e ds', mid.persist s path content language cs mtime = (.error e, ds') →
      ds' = mid ∧ ∀ later,
        ds.session (before ++ .persist s path content language cs mtime :: later) =
          ((ds.session before).1 ++ .stored (.error e) :: (mid.session later).1,
            (mid.session later).2) ∧
        ds.session (before ++ later) =
          ((ds.session before).1 ++ (mid.session later).1, (mid.session later).2) := by
  intro mid r
  refine ⟨mid.persist_refused_iff s path content language cs mtime, fun x _ => ⟨?_, ?_⟩, ?_⟩
  · exact persist_eq_settle path content language cs mtime x
  · intro e j hj
    have hrun := Journal.run_persist x r cs
    cases hfault : refusal? cs r.mtime with
    | none =>
      rw [hfault] at hrun
      rw [hrun] at hj
      cases hj
    | some e =>
      rw [hfault] at hrun
      obtain ⟨y, hy, hrun⟩ := hrun
      rw [hrun] at hj
      cases hj
      exact ⟨hy, rfl⟩
  · intro e ds' h
    obtain rfl := mid.persist_refused s path content language cs mtime h
    refine ⟨rfl, fun later => ⟨?_, ds.session_append before later⟩⟩
    have hrespond : mid.respond (.persist s path content language cs mtime) =
        (.stored (.error e), mid) := by rw [respond, h]
    rw [session_append, session, hrespond]

/-- A chunk whose last line has no number, behind one that has been written. -/
theorem persist_undone_lateLine :
    let ds := (({} : Databases).create {} { engine := .factory }).2
    let s : Store := ⟨.memory 0, true, .create⟩
    let cs : List Chunk :=
      [⟨['a', 'b'], "text", 1, 1, []⟩, ⟨['c'], "text", 2, 9223372036854775808, []⟩]
    (ds.get s.site).isReady ∧ ∃ e, ds.persist s "p" [] none cs 0 = (.error e, ds) := by
  intro ds s cs
  obtain ⟨hrefused, -, hundone⟩ := persist_undone ds s "p" [] none cs 0 []
  obtain ⟨e, he⟩ := hrefused.mpr
    (.inr (.inr ⟨_, List.mem_cons_of_mem _ List.mem_cons_self, .inr (.inr (by decide))⟩))
  refine ⟨by decide +kernel, e, ?_⟩
  have hds := hundone e _ (Prod.ext he rfl)
  exact Prod.ext he hds.1

end CodeChunks.Databases
