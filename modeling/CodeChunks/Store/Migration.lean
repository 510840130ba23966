/-! # Migrations -/
namespace CodeChunks

/-- A step from one shape of a database to the next, known by its hash. -/
structure Step (σ : Type) where
  hash : String
  statements : List σ
deriving DecidableEq

/-- A kind of database. Some of its statements open a transaction; the others take effect at once
unless one is open. A ledger of hashes is made where there is none. -/
structure Backend (δ σ ε : Type) where
  execute : δ → σ → Except ε δ
  opensTransaction : σ → Bool
  makeLedger : δ → Except ε δ
  hashes : δ → Except ε (List String)
  enter : δ → String → Except ε δ

/-- A database inside a step, with the state to go back to once a transaction is open. -/
structure Stage (δ : Type) where
  current : δ
  mark : Option δ := none

namespace Stage

variable {δ : Type}

def begin (s : Stage δ) : Stage δ := { s with mark := some (s.mark.getD s.current) }

/-- Undoes what the open transaction has done. -/
def rollback (s : Stage δ) : δ := s.mark.getD s.current

end Stage

namespace Backend

variable {δ σ ε : Type} (b : Backend δ σ ε)

/-- The database with a ledger, unless it cannot get one. -/
def withLedger (db : δ) : δ := (b.makeLedger db).toOption.getD db

/-- The state in which a statement is executed, with the transaction that it opens. -/
def ready (s : Stage δ) (t : σ) : Stage δ := if b.opensTransaction t then s.begin else s

/-- The statements in turn, or the state to go back to when one fails. -/
def run (s : Stage δ) : List σ → Except (ε × δ) (Stage δ)
  | [] => .ok s
  | t :: ts =>
    let s := b.ready s t
    match b.execute s.current t with
    | .ok db => run { s with current := db } ts
    | .error e => .error (e, s.rollback)

/-- Records a step in the ledger, which opens a transaction too. -/
def record (s : Stage δ) (hash : String) : Except (ε × δ) δ :=
  let s := s.begin
  match b.enter s.current hash with
  | .ok db => .ok db
  | .error e => .error (e, s.rollback)

def migrateOne (db : δ) (m : Step σ) : Except (ε × δ) δ := do
  let s ← b.run ⟨db, none⟩ m.statements
  b.record s m.hash

/-- The hashes that were applied, or the fault of the first step that failed, and the database. -/
def migrateFrom (done applied : List String) (db : δ) :
    List (Step σ) → Except ε (List String) × δ
  | [] => (.ok applied, db)
  | m :: ms =>
    if done.contains m.hash then migrateFrom done applied db ms
    else match b.migrateOne db m with
      | .ok db => migrateFrom done (applied ++ [m.hash]) db ms
      | .error (e, db) => (.error e, db)

/-- Applies the steps that the ledger did not hold at the start. -/
def migrate (db : δ) (ms : List (Step σ)) : Except ε (List String) × δ :=
  match b.makeLedger db with
  | .error e => (.error e, db)
  | .ok db => match b.hashes db with
    | .error e => (.error e, db)
    | .ok done => b.migrateFrom done [] db ms

end Backend

end CodeChunks
