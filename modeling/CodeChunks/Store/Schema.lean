import CodeChunks.Store.Lexicon
import CodeChunks.Store.Migration

/-! # Databases and the migrations that shape them -/
namespace CodeChunks

/-- The tables with their columns in order, and the indexes with the tables they belong to. -/
structure Schema where
  tables : List (String × List String) := []
  indexes : List (String × String) := []
deriving DecidableEq

/-- A database: its shape, the hashes of the migrations that it has been through, and its rows. -/
structure Database where
  schema : Schema := {}
  ledger : List String := []
  rows : Lexicon := {}

/-- A statement of a migration. An index is made only where there is none of its name. -/
inductive Statement where
  | createTable (ifAbsent : Bool) (name : String) (columns : List String)
  | createIndex (name table : String) (columns : List String)
  | addColumn (table column : String)
  | dropTable (name : String)
  | deleteRows (table : String)
  | invalid
deriving DecidableEq

/-- Only the statements that change rows open a transaction. -/
def Statement.opensTransaction : Statement → Bool
  | .deleteRows _ => true
  | _ => false

abbrev Migration := Step Statement

namespace Database

/-- Why a statement fails. A foreign file is one that holds no database. -/
inductive Fault where
  | operational
  | integrity
  | foreign
deriving DecidableEq

def ledgerTable : String := "__migrations"

/-- Removes the rows of a table. -/
def clear (db : Database) (table : String) : Database :=
  if table = ledgerTable then { db with ledger := [] }
  else if table = "files" then { db with rows.files := [] }
  else if table = "chunks" then { db with rows.chunks := [] }
  else if table = "document_vectors" then { db with rows.terms := [] }
  else if table = "idf_scores" then { db with rows.scores := [] }
  else db

def columns? (db : Database) (table : String) : Option (List String) :=
  Assoc.find? table db.schema.tables

def createTable (db : Database) (ifAbsent : Bool) (name : String) (columns : List String) :
    Except Fault Database :=
  if Assoc.has name db.schema.tables then if ifAbsent then .ok db else .error .operational
  else if Assoc.has name db.schema.indexes then .error .operational
  else .ok ({ db with schema.tables := Assoc.insert name columns db.schema.tables }.clear name)

def createIndex (db : Database) (name table : String) (columns : List String) :
    Except Fault Database :=
  match db.columns? table with
  | none => .error .operational
  | some cs =>
    if Assoc.has name db.schema.tables then .error .operational
    else if Assoc.has name db.schema.indexes then .ok db
    else if columns.all cs.contains then
      .ok { db with schema.indexes := Assoc.insert name table db.schema.indexes }
    else .error .operational

def addColumn (db : Database) (table column : String) : Except Fault Database :=
  match db.columns? table with
  | none => .error .operational
  | some cs =>
    if cs.contains column then .error .operational
    else .ok { db with schema.tables := Assoc.insert table (cs ++ [column]) db.schema.tables }

/-- A table goes with its indexes and its rows, if it is there. -/
def dropTable (db : Database) (name : String) : Database :=
  { db with
    schema.tables := Assoc.erase name db.schema.tables
    schema.indexes := db.schema.indexes.filter fun i => i.2 ≠ name }.clear name

def deleteRows (db : Database) (table : String) : Except Fault Database :=
  if Assoc.has table db.schema.tables then .ok (db.clear table)
  else .error .operational

def execute (db : Database) : Statement → Except Fault Database
  | .createTable ifAbsent name columns => db.createTable ifAbsent name columns
  | .createIndex name table columns => db.createIndex name table columns
  | .addColumn table column => db.addColumn table column
  | .dropTable name => .ok (db.dropTable name)
  | .deleteRows table => db.deleteRows table
  | .invalid => .error .operational

/-- A database cannot get a ledger where an index has its name. -/
def makeLedger (db : Database) : Except Fault Database :=
  db.createTable true ledgerTable ["id", "hash", "created_at"]

/-- A table has some columns, among others. -/
def hasColumns (db : Database) (table : String) (columns : List String) : Bool :=
  (db.columns? table).any fun cs => columns.all cs.contains

def hashes (db : Database) : Except Fault (List String) :=
  if db.hasColumns ledgerTable ["id", "hash"] then .ok db.ledger else .error .operational

/-- No hash may stand in the ledger twice. -/
def enter (db : Database) (hash : String) : Except Fault Database :=
  if !db.hasColumns ledgerTable ["hash", "created_at"] then .error .operational
  else if db.ledger.contains hash then .error .integrity
  else .ok { db with ledger := db.ledger ++ [hash] }

def backend : Backend Database Statement Fault where
  execute := execute
  opensTransaction := Statement.opensTransaction
  makeLedger := makeLedger
  hashes := hashes
  enter := enter

def withLedger (db : Database) : Database := backend.withLedger db

def migrate (db : Database) (ms : List Migration) : Except Fault (List String) × Database :=
  backend.migrate db ms

def initialSchema : Migration where
  hash := "initial_schema_v1"
  statements := [
    .createTable true "files"
      ["id", "path", "content", "hash", "size", "mtime", "language", "indexed_at"],
    .createIndex "files_path_idx" "files" ["path"],
    .createIndex "files_hash_idx" "files" ["hash"],
    .createTable true "document_vectors" ["id", "file_id", "term", "tf", "tfidf", "raw_freq"],
    .createIndex "vectors_file_id_idx" "document_vectors" ["file_id"],
    .createIndex "vectors_term_idx" "document_vectors" ["term"],
    .createIndex "vectors_tfidf_idx" "document_vectors" ["tfidf"],
    .createTable true "idf_scores" ["id", "term", "idf", "document_frequency"],
    .createIndex "idf_term_idx" "idf_scores" ["term"],
    .createTable true "index_metadata" ["id", "key", "value", "updated_at"]]

def magnitudeColumn : Migration :=
  ⟨"add_magnitude_column_v1", [.addColumn "files" "magnitude"]⟩

def compositeTermIndex : Migration :=
  ⟨"add_composite_term_index_v1",
    [.createIndex "vectors_term_file_idx" "document_vectors" ["term", "file_id"]]⟩

def tokenCountColumn : Migration :=
  ⟨"add_token_count_column_v1", [.addColumn "files" "token_count"]⟩

/-- Terms move from files to chunks, so what was counted for files is dropped. -/
def chunksTable : Migration where
  hash := "add_chunks_table_v1"
  statements := [
    .createTable true "chunks" ["id", "file_id", "content", "type", "start_line", "end_line",
      "metadata", "token_count", "magnitude"],
    .createIndex "chunks_file_id_idx" "chunks" ["file_id"],
    .createIndex "chunks_type_idx" "chunks" ["type"],
    .dropTable "document_vectors",
    .createTable false "document_vectors" ["id", "chunk_id", "term", "tf", "tfidf", "raw_freq"],
    .createIndex "vectors_chunk_id_idx" "document_vectors" ["chunk_id"],
    .createIndex "vectors_term_idx" "document_vectors" ["term"],
    .createIndex "vectors_tfidf_idx" "document_vectors" ["tfidf"],
    .createIndex "vectors_term_chunk_idx" "document_vectors" ["term", "chunk_id"],
    .deleteRows "idf_scores"]

def migrations : List Migration :=
  [initialSchema, magnitudeColumn, compositeTermIndex, tokenCountColumn, chunksTable]

/-- The store has the shape that its queries need. -/
def isReady (db : Database) : Bool :=
  ["files", "chunks", "document_vectors", "idf_scores"].all fun t => (db.columns? t).isSome

def indexNames (db : Database) : List String :=
  (Assoc.keys db.schema.indexes).mergeSort fun a b => decide (a ≤ b)

end Database

end CodeChunks
