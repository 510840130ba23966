import CodeChunks.Json.Entries
import CodeChunks.Lists
import CodeChunks.Number.Arithmetic

/-! # The vector store -/
namespace CodeChunks

/-- A vector of binary32 numbers. -/
abbrev Embedding := List Float32

structure Document where
  id : String
  embedding : List Json.Number
  metadata : Json.Fields := []

/-- Documents and their vectors in the order in which the ids came. -/
structure VectorStore where
  dimensions : Nat
  documents : List (String × Document) := []
  vectors : List (String × Embedding) := []

namespace VectorStore

inductive Fault where
  | noDimensions
  | wrongLength (given wanted : Nat)
  | tooLarge
  | duplicate (id : String)
  | count (e : Json.IntegerFault)
deriving DecidableEq

def Fault.message : Fault → String
  | .noDimensions => "dimensions must be positive"
  | .wrongLength given wanted =>
    s!"Embedding dimensions ({given}) don't match store dimensions ({wanted})"
  | .tooLarge => "int too large to convert to float"
  | .duplicate id => s!"Document with ID {id} already exists"
  | .count e => e.message

def make? (dimensions : Int) : Except Fault VectorStore :=
  if dimensions < 1 then .error .noDimensions else .ok { dimensions := dimensions.toNat }

/-- The numbers rounded to binary32, if they are in the range of binary64 and as many as the
dimensions. -/
def vector? (s : VectorStore) (xs : List Json.Number) : Except Fault Embedding :=
  match xs.mapM Json.Number.toFloat? with
  | none => .error .tooLarge
  | some ys =>
    if ys.length = s.dimensions then .ok (ys.map Binary32.narrow)
    else .error (.wrongLength ys.length s.dimensions)

/-- Stores a document in the place of the one with its id, or at the end. -/
def put (s : VectorStore) (d : Document) (v : Embedding) : VectorStore :=
  { s with
    documents := Assoc.insert d.id d s.documents
    vectors := Assoc.insert d.id v s.vectors }

def has (s : VectorStore) (id : String) : Bool := Assoc.has id s.documents

def get? (s : VectorStore) (id : String) : Option Document := Assoc.find? id s.documents

def update (s : VectorStore) (d : Document) : Except Fault VectorStore := do
  return s.put d (← s.vector? d.embedding)

def add (s : VectorStore) (d : Document) : Except Fault VectorStore :=
  if s.has d.id then .error (.duplicate d.id) else s.update d

/-- Checks a batch against the store and the ids before: ids new and different, lengths right. -/
def checkBatch (s : VectorStore) (seen : List String) : List Document → Except Fault Unit
  | [] => .ok ()
  | d :: ds =>
    if s.has d.id || seen.contains d.id then .error (.duplicate d.id)
    else do
      let _ ← s.vector? d.embedding
      s.checkBatch (d.id :: seen) ds

/-- Adds all documents or none. -/
def addMany (s : VectorStore) (ds : List Document) : Except Fault VectorStore := do
  s.checkBatch [] ds
  ds.foldlM update s

def delete (s : VectorStore) (id : String) : Bool × VectorStore :=
  if s.has id then
    (true, { s with documents := Assoc.erase id s.documents, vectors := Assoc.erase id s.vectors })
  else (false, s)

def ids (s : VectorStore) : List String := Assoc.keys s.documents

def clear (s : VectorStore) : VectorStore := { s with documents := [], vectors := [] }

end VectorStore

end CodeChunks
