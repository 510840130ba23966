import CodeChunks.Chunk.Basic
import CodeChunks.Json.Entries
import CodeChunks.Json.Read
import CodeChunks.Json.Write
import CodeChunks.Lists
import CodeChunks.Number.Arithmetic
import CodeChunks.Store.Digest
import CodeChunks.Text.Lower

/-! # The lexical store -/

/-! ## Terms of a text -/
namespace CodeChunks

def isTermChar (c : Char) : Bool :=
  (97 ≤ c.toNat && c.toNat ≤ 122) || (48 ≤ c.toNat && c.toNat ≤ 57) || c == '_'

/-- The maximal runs of characters of a kind; `run` holds the latest one in reverse. -/
def runsFrom (p : Char → Bool) (run : Text) : Text → List Text
  | [] => if run.isEmpty then [] else [run.reverse]
  | c :: t =>
    if p c then runsFrom p (c :: run) t
    else (if run.isEmpty then [] else [run.reverse]) ++ runsFrom p [] t

/-- The words of the lower-cased text that have at least two characters. -/
def tokenize (t : Text) : List Text :=
  (runsFrom isTermChar [] (Text.lower t)).filter fun w => 1 < w.length

/-- How often each term occurs, in the order of first occurrence. -/
def termCounts (ws : List Text) : List (Text × Nat) := ws.eraseDups.map fun w => (w, ws.count w)

/-- A term of a chunk: how often it occurs there, its share of the chunk, and that share weighted by
how rare the term is. -/
structure TermRow where
  chunkId : Int
  term : Text
  count : Nat
  tf : Float
  tfidf : Float

/-- The rows of the terms of a chunk, not weighted yet. -/
def termRows (chunkId : Int) (ws : List Text) : List TermRow :=
  (termCounts ws).map fun (w, n) =>
    ⟨chunkId, w, n, Binary64.ratio n ws.length, 0⟩

/-! ## Rows and tables -/

structure FileRow where
  id : Int
  path : String
  content : Text
  hash : Text
  size : Nat
  mtime : Int
  language : Option String
  tokenCount : Nat

/-- A stored chunk; its metadata are kept as a document. -/
structure ChunkRow where
  id : Int
  fileId : Int
  content : Text
  type : String
  startLine : Int
  endLine : Int
  metadata : Text
  tokenCount : Nat
  magnitude : Float := 0

/-- Why a row is no chunk: a line has no number, or the metadata are no document or one without
entries. -/
inductive RowFault where
  | line (e : Json.IntegerFault)
  | document (e : Json.Fault)
  | entries (e : Json.EntriesFault)

def RowFault.message : RowFault → String
  | .line e => e.message
  | .document e => e.message
  | .entries e => e.message

/-- A row of the chunk table in which anything may be missing, and lines are whatever was stored. -/
structure LooseRow where
  content : Option Text := none
  type : Option String := none
  startLine : Json := .null
  endLine : Json := .null
  metadata : Option Text := none

/-- How deep a document of metadata may go, and that its integers are limited. -/
def metadataLimits : Json.Limits := ⟨some 987, true⟩

/-- Writing goes through one more call than reading. -/
def writingLimits : Json.Limits := ⟨some 986, true⟩

/-- An empty text stands for no metadata. -/
def readMetadata (t : Text) : Except RowFault Json.Fields :=
  if t.isEmpty then .ok []
  else do
    let v ← (Json.readWithin metadataLimits t).mapError .document
    v.asFields.mapError .entries

/-- What stands for nothing is line zero. -/
def readLine (v : Json) : Except RowFault Int :=
  if v.truthy then v.asInt.mapError .line else .ok 0

/-- What is missing or empty takes a default. -/
def LooseRow.toChunk (r : LooseRow) : Except RowFault Chunk := do
  let startLine ← readLine r.startLine
  let endLine ← readLine r.endLine
  let metadata ← readMetadata (r.metadata.getD [])
  let type := r.type.getD ""
  return {
    content := r.content.getD []
    type := if type = "" then "unknown" else type
    startLine, endLine, metadata }

def ChunkRow.toChunk (r : ChunkRow) : Except RowFault Chunk :=
  LooseRow.toChunk ⟨r.content, r.type, .int r.startLine, .int r.endLine, r.metadata⟩

/-- How rare a term is: the logarithm of all chunks by the chunks that it occurs in. -/
structure ScoreRow where
  term : Text
  idf : Float
  frequency : Nat

/-- The tables of files, chunks, terms of chunks and scores of terms, with the next numbers. -/
structure Lexicon where
  files : List FileRow := []
  chunks : List ChunkRow := []
  terms : List TermRow := []
  scores : List ScoreRow := []
  nextFile : Int := 1
  nextChunk : Int := 1

namespace Lexicon

/-- A number that no column can hold. -/
structure Overflow where
deriving DecidableEq

def Overflow.message (_ : Overflow) : String := "Python int too large to convert to SQLite INTEGER"

/-- Why nothing is stored: a number does not fit, or metadata have no text. -/
inductive Fault where
  | overflow (e : Overflow)
  | metadata (e : Json.Fault)

def fits (n : Int) : Bool := -0x8000000000000000 ≤ n && n < 0x8000000000000000

def chunkRow (id fileId : Int) (c : Chunk) (tokenCount : Nat) : ChunkRow where
  id := id
  fileId := fileId
  content := c.content
  type := c.type
  startLine := c.startLine
  endLine := c.endLine
  metadata := Json.write (.obj c.metadata)
  tokenCount := tokenCount

def fileAt? (x : Lexicon) (path : String) : Option FileRow := x.files.find? (·.path == path)

/-- Replaces the row of a path, which keeps its number, or adds one under the next number; that
number is used up in both cases. -/
def putFile (x : Lexicon) (r : FileRow) : Int × Lexicon :=
  match x.fileAt? r.path with
  | some old => (old.id, { x with
      files := x.files.map fun f => if f.path == r.path then { r with id := old.id } else f
      nextFile := x.nextFile + 1 })
  | none => (x.nextFile, { x with
      files := x.files ++ [{ r with id := x.nextFile }]
      nextFile := x.nextFile + 1 })

/-- Removes the chunks of some files and the terms of those chunks. -/
def dropChunks (x : Lexicon) (fileIds : List Int) : Lexicon :=
  let gone := (x.chunks.filter fun c => fileIds.contains c.fileId).map (·.id)
  { x with
    chunks := x.chunks.filter fun c => !fileIds.contains c.fileId
    terms := x.terms.filter fun t => !gone.contains t.chunkId }

def addChunk (x : Lexicon) (fileId : Int) (c : Chunk) : Lexicon :=
  let ws := tokenize c.content
  { x with
    chunks := x.chunks ++ [chunkRow x.nextChunk fileId c ws.length]
    terms := x.terms ++ termRows x.nextChunk ws
    nextChunk := x.nextChunk + 1 }

/-- The different terms in order. -/
def vocabulary (ts : List TermRow) : List Text :=
  (ts.map (·.term)).eraseDups.mergeSort Text.isLe

/-- The number of chunks that a term occurs in. -/
def frequency (ts : List TermRow) (w : Text) : Nat :=
  (((ts.filter (·.term == w)).map (·.chunkId)).eraseDups).length

def scoreRow (total : Nat) (ts : List TermRow) (w : Text) : ScoreRow :=
  let n := frequency ts w
  ⟨w, Logarithm.ln (Binary64.ratio total n), n⟩

def scoreOf? (scores : List ScoreRow) (w : Text) : Option Float :=
  (scores.find? (·.term == w)).map (·.idf)

/-- A term row weighted by the score of its term. -/
def weigh (scores : List ScoreRow) (t : TermRow) : TermRow :=
  { t with tfidf := t.tf * (scoreOf? scores t.term).getD 0 }

/-- The length of the vector of the weights of a chunk; without terms it stays as it is. -/
def measure (ts : List TermRow) (c : ChunkRow) : ChunkRow :=
  let own := ts.filter (·.chunkId == c.id)
  if own.isEmpty then c
  else { c with magnitude := (Binary64.sum (own.map fun t => t.tfidf * t.tfidf)).sqrt }

/-- Computes the scores of all terms anew, and everything that depends on them. -/
def refresh (x : Lexicon) : Lexicon :=
  if x.chunks.isEmpty then { x with scores := [] } else
    let scores := (vocabulary x.terms).map (scoreRow x.chunks.length x.terms)
    let terms := x.terms.map (weigh scores)
    { x with scores, terms, chunks := x.chunks.map (measure terms) }

/-- Steps that change the store one after another until one fails. -/
abbrev Steps := ExceptT Fault (StateM Lexicon)

/-- Takes the changes of all steps, or of none when one fails. -/
def atomically {α : Type} (s : Steps α) (x : Lexicon) : Except Fault α × Lexicon :=
  match s.run x with
  | (.ok a, y) => (.ok a, y)
  | (.error e, _) => (.error e, x)

def writeFile (r : FileRow) : Steps Int := do
  if !fits r.mtime then throw (.overflow {})
  let (id, x) := (← get).putFile r
  set x
  return id

/-- Why there is no row for a chunk. Its metadata are written before its lines are looked at. -/
def fault? (c : Chunk) : Option Fault :=
  match Json.writingFault? writingLimits (.obj c.metadata) with
  | some e => some (.metadata e)
  | none => if fits c.startLine && fits c.endLine then none else some (.overflow {})

def writeChunk (fileId : Int) (c : Chunk) : Steps Unit :=
  match fault? c with
  | some e => throw e
  | none => modify (·.addChunk fileId c)

def writeChunks (fileId : Int) : List Chunk → Steps Unit
  | [] => return
  | c :: cs => do
    writeChunk fileId c
    writeChunks fileId cs

/-- The row of a file whose number is not known yet. -/
def fileRow (path : String) (content : Text) (language : Option String) (cs : List Chunk)
    (mtime : Int) : FileRow :=
  let bytes := Utf8.encode content
  let tokenCount := total (cs.map fun c => (tokenize c.content).length)
  ⟨0, path, content, Digest.sha256 bytes, bytes.length, mtime, language, tokenCount⟩

def persistSteps (path : String) (content : Text) (language : Option String) (cs : List Chunk)
    (mtime : Int) : Steps Int := do
  let id ← writeFile (fileRow path content language cs mtime)
  modify (·.dropChunks [id])
  writeChunks id cs
  modify (·.refresh)
  return id

/-- Replaces everything stored for a path and gives the number of the file. -/
def persist (x : Lexicon) (path : String) (content : Text) (language : Option String)
    (cs : List Chunk) (mtime : Int) : Except Fault Int × Lexicon :=
  atomically (persistSteps path content language cs mtime) x

/-- Removes files with everything stored for them; unknown paths are passed over. -/
def delete (x : Lexicon) (paths : List String) : Lexicon :=
  let ids := (x.files.filter fun f => paths.contains f.path).map (·.id)
  if ids.isEmpty then x else
    let x := x.dropChunks ids
    { x with files := x.files.filter fun f => !ids.contains f.id }.refresh

def chunkRowsAt (x : Lexicon) (path : String) : List ChunkRow :=
  match x.fileAt? path with
  | none => []
  | some f => x.chunks.filter (·.fileId == f.id)

/-- The chunks stored for a path, in order. -/
def chunksAt (x : Lexicon) (path : String) : Except RowFault (List Chunk) :=
  (x.chunkRowsAt path).mapM (·.toChunk)

/-- The term rows of a path, in the order of its chunks. -/
def termsAt (x : Lexicon) (path : String) : List TermRow :=
  let ids := (x.chunkRowsAt path).map (·.id)
  x.terms.filter fun t => ids.contains t.chunkId

def idf? (x : Lexicon) (w : Text) : Option Float := scoreOf? x.scores w

end Lexicon

end CodeChunks
