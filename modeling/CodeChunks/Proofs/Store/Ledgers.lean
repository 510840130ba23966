import CodeChunks.Proofs.Assoc
import CodeChunks.Proofs.Store.Stages
import CodeChunks.Store.Schema

/-! # Ledgers

Which steps are run hangs on what the ledger does and not on the statements, as long as they leave
the ledger alone. -/
namespace CodeChunks

namespace Backend

variable {δ σ ε : Type} (b : Backend δ σ ε) (db : δ)

/-- The hashes that a run finds in the ledger. -/
def held : List String := (b.hashes (b.withLedger db)).toOption.getD []

/-- How a ledger that is in order works: it is not made again, its hashes can be read, and a hash
that it does not hold goes behind the others. -/
structure Ledger where
  Sound : δ → Prop
  makes : ∀ db, Sound db → b.makeLedger db = .ok db
  reads : ∀ db, Sound db → ∃ hs, b.hashes db = .ok hs
  enters : ∀ db hs h, Sound db → b.hashes db = .ok hs → h ∉ hs →
    ∃ next, b.enter db h = .ok next ∧ Sound next ∧ b.hashes next = .ok (hs ++ [h])

variable {b}

/-- The step leaves the ledger to those who run it. -/
def Ledger.Spared (l : b.Ledger) (m : Step σ) : Prop :=
  ∀ t ∈ m.statements, ∀ db next, b.execute db t = .ok next →
    b.hashes next = b.hashes db ∧ (l.Sound db → l.Sound next)

variable {l : b.Ledger} {db} {last : δ}

theorem Ledger.withLedger_eq (l : b.Ledger) (h : l.Sound db) : b.withLedger db = db := by
  rw [withLedger, l.makes db h]
  rfl

theorem Ledger.makeLedger_eq (l : b.Ledger) (h : l.Sound (b.withLedger db)) :
    b.makeLedger db = .ok (b.withLedger db) := by
  cases hmake : b.makeLedger db with
  | ok next => rw [withLedger, hmake]; rfl
  | error e =>
    have hself : b.withLedger db = db := by rw [withLedger, hmake]; rfl
    rw [hself] at h
    rw [l.makes db h] at hmake
    cases hmake

theorem Ledger.hashes_eq (l : b.Ledger) (h : l.Sound db) : b.hashes db = .ok (b.held db) := by
  obtain ⟨hs, hhs⟩ := l.reads db h
  rw [held, l.withLedger_eq h, hhs]
  rfl

theorem Ledger.held_withLedger (l : b.Ledger) (h : l.Sound (b.withLedger db)) :
    b.held (b.withLedger db) = b.held db := by
  rw [held, l.withLedger_eq h, held]

theorem Ledger.held_of_hashes (l : b.Ledger) (h : l.Sound db) {hs : List String}
    (hhashes : b.hashes db = .ok hs) : b.held db = hs :=
  Except.ok.inj ((l.hashes_eq h).symm.trans hhashes)

/-- Statements that leave the ledger alone leave it as it was. -/
theorem Ledger.of_foldlM {ts : List σ}
    (hts : ∀ t ∈ ts, ∀ db next, b.execute db t = .ok next →
      b.hashes next = b.hashes db ∧ (l.Sound db → l.Sound next))
    (h : ts.foldlM b.execute db = .ok last) :
    b.hashes last = b.hashes db ∧ (l.Sound db → l.Sound last) := by
  induction ts generalizing db with
  | nil =>
    cases h
    exact ⟨rfl, id⟩
  | cons t ts ih =>
    obtain ⟨next, ht, hrest⟩ := exists_of_foldlM_cons h
    obtain ⟨hhashes, hsound⟩ := hts t List.mem_cons_self db next ht
    obtain ⟨hhashes', hsound'⟩ := ih (fun u hu => hts u (List.mem_cons_of_mem t hu)) hrest
    exact ⟨hhashes'.trans hhashes, fun h => hsound' (hsound h)⟩

end Backend

/-! ## The ledger of a database -/

/-- The table that a statement is about. -/
def Statement.table? : Statement → Option String
  | .createTable _ name _ => some name
  | .createIndex _ table _ => some table
  | .addColumn table _ => some table
  | .dropTable name => some name
  | .deleteRows table => some table
  | .invalid => none

namespace Database

variable {db next : Database}

/-- The ledger is there as before, with the same columns. -/
structure KeepsLedger (db next : Database) : Prop where
  ledger : next.ledger = db.ledger
  columns : next.columns? ledgerTable = db.columns? ledgerTable

theorem keepsLedger_clear {table : String} (h : table ≠ ledgerTable) (db : Database) :
    db.KeepsLedger (db.clear table) := by
  rw [clear, if_neg h]
  repeat' split
  all_goals exact ⟨rfl, rfl⟩

theorem keepsLedger_insert {table : String} (h : table ≠ ledgerTable) (db : Database)
    (columns : List String) :
    db.KeepsLedger { db with schema.tables := Assoc.insert table columns db.schema.tables } :=
  ⟨rfl, by rw [columns?, Assoc.find?_insert, if_neg h, columns?]⟩

theorem KeepsLedger.trans {last : Database} (h : db.KeepsLedger next)
    (h' : next.KeepsLedger last) : db.KeepsLedger last :=
  ⟨h'.ledger.trans h.ledger, h'.columns.trans h.columns⟩

/-- A statement about another table keeps the ledger. -/
theorem keepsLedger_execute {t : Statement} (ht : t.table? ≠ some ledgerTable)
    (h : db.execute t = .ok next) : db.KeepsLedger next := by
  have hself : db.KeepsLedger db := ⟨rfl, rfl⟩
  cases t with
  | createTable ifAbsent name columns =>
    have hname : name ≠ ledgerTable := fun heq => ht (congrArg some heq)
    rw [execute, createTable] at h
    split at h
    · split at h <;> cases h
      exact hself
    · split at h <;> cases h
      exact (keepsLedger_insert hname db columns).trans (keepsLedger_clear hname _)
  | createIndex name table columns =>
    rw [execute, createIndex] at h
    cases hcolumns : db.columns? table with
    | none =>
      rw [hcolumns] at h
      cases h
    | some cs =>
      rw [hcolumns] at h
      dsimp only at h
      split at h
      · cases h
      · split at h
        · cases h
          exact hself
        · split at h <;> cases h
          exact ⟨rfl, rfl⟩
  | addColumn table column =>
    have htable : table ≠ ledgerTable := fun heq => ht (congrArg some heq)
    rw [execute, addColumn] at h
    cases hcolumns : db.columns? table with
    | none =>
      rw [hcolumns] at h
      cases h
    | some cs =>
      rw [hcolumns] at h
      dsimp only at h
      split at h <;> cases h
      exact keepsLedger_insert htable db _
  | dropTable name =>
    have hname : name ≠ ledgerTable := fun heq => ht (congrArg some heq)
    cases h
    have herase : db.KeepsLedger { db with
        schema.tables := Assoc.erase name db.schema.tables
        schema.indexes := db.schema.indexes.filter fun i => i.2 ≠ name } :=
      ⟨rfl, by rw [columns?, Assoc.find?_erase, if_neg hname.symm, columns?]⟩
    exact herase.trans (keepsLedger_clear hname _)
  | deleteRows table =>
    have htable : table ≠ ledgerTable := fun heq => ht (congrArg some heq)
    rw [execute, deleteRows] at h
    split at h <;> cases h
    exact keepsLedger_clear htable db
  | invalid => cases h

theorem KeepsLedger.hasColumns (h : db.KeepsLedger next) (columns : List String) :
    next.hasColumns ledgerTable columns = db.hasColumns ledgerTable columns := by
  rw [Database.hasColumns, h.columns, Database.hasColumns]

theorem hasColumns_of_subset {table : String} {cs ds : List String} (hsub : ds ⊆ cs)
    (h : db.hasColumns table cs) : db.hasColumns table ds := by
  rw [hasColumns] at h ⊢
  cases hcolumns : db.columns? table with
  | none =>
    rw [hcolumns] at h
    cases h
  | some columns =>
    rw [hcolumns, Option.any_some, List.all_eq_true] at h
    rw [Option.any_some, List.all_eq_true]
    exact fun c hc => h c (hsub hc)

theorem has_of_hasColumns {table : String} {cs : List String} (h : db.hasColumns table cs) :
    Assoc.has table db.schema.tables := by
  rw [hasColumns, columns?] at h
  rw [Assoc.has]
  cases hcolumns : Assoc.find? table db.schema.tables with
  | none =>
    rw [hcolumns] at h
    cases h
  | some columns => rfl

/-- The ledger of a database is in order when its table has all its columns. -/
def hashLedger : backend.Ledger where
  Sound db := db.hasColumns ledgerTable ["id", "hash", "created_at"]
  makes := by
    intro db h
    change db.createTable true ledgerTable _ = .ok db
    rw [createTable, if_pos (has_of_hasColumns h), if_pos rfl]
  reads := fun db h => ⟨db.ledger, if_pos (hasColumns_of_subset (by simp) h)⟩
  enters := by
    intro db hs hash h hhashes hnew
    have hread : db.hashes = .ok db.ledger := if_pos (hasColumns_of_subset (by simp) h)
    obtain rfl : db.ledger = hs := Except.ok.inj (hread.symm.trans hhashes)
    have hcolumns : db.hasColumns ledgerTable ["hash", "created_at"] :=
      hasColumns_of_subset (by simp) h
    refine ⟨{ db with ledger := db.ledger ++ [hash] }, ?_, h, ?_⟩
    · change db.enter hash = _
      rw [enter, hcolumns, if_neg (by simp), if_neg (by simpa using hnew)]
    · exact if_pos (hasColumns_of_subset (by simp) h)

theorem spared_of_table? {m : Migration} (h : ∀ t ∈ m.statements, t.table? ≠ some ledgerTable) :
    hashLedger.Spared m := by
  intro t ht db next hnext
  have hkeeps := keepsLedger_execute (h t ht) hnext
  refine ⟨?_, fun hsound => (hkeeps.hasColumns _).trans hsound⟩
  change next.hashes = db.hashes
  rw [hashes, hkeeps.hasColumns, hkeeps.ledger, hashes]

end Database

end CodeChunks
