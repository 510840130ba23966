import CodeChunks.Chunk.Basic
import CodeChunks.Chunk.Pipeline
import CodeChunks.Files.Folder
import CodeChunks.Files.Path
import CodeChunks.Lists
import CodeChunks.Store.Connection

/-! # Indexing files, and the summary of a run -/

/-! ## Where the chunks of files go -/
namespace CodeChunks

/-- Takes the chunks of one file after another, or refuses them with a text. -/
structure Sink (σ : Type) where
  put : Path → Text → Option String → List Chunk → σ → Except String Unit × σ

namespace Sink

/-- The chunks go into a lexical store. -/
def ofStore (s : Store) (mtime : Int) : Sink Databases where
  put path content language cs ds :=
    match ds.persist s path content language cs mtime with
    | (.ok _, ds) => (.ok (), ds)
    | (.error e, ds) => (.error (e.message?.getD ""), ds)

end Sink

/-! ## Chunking files -/

/-- A file that was chunked; its chunks are cut by size when the time ran out. -/
structure IndexEntry where
  path : Path
  language : Option String
  timedOut : Bool
  chunks : List Chunk

/-- A file that was not chunked, or whose chunks were refused. -/
structure IndexFailure where
  path : Path
  error : String

/-- Why chunking stops before the last file. -/
inductive IndexFault where
  | zeroByte
  | hangs
  | tooLarge
  | blankLimit
deriving DecidableEq

def IndexFault.message : IndexFault → String
  | .zeroByte => "embedded null byte"
  | .hangs => "a parser does not answer"
  | .tooLarge => Budget.TooLarge.message {}
  | .blankLimit => "'<=' not supported between instances of 'list' and 'int'"

/-- Chunking with a session, and with a sink in a state of its own. -/
abbrev Indexing (σ : Type) := ExceptT IndexFault (StateM (Session × σ))

/-- What files are chunked with. Whether their time is limited is asked once there is a text, and
may have no answer. -/
structure Workshop where
  toolbox : Toolbox
  options : Options
  files : Files
  limited : Except IndexFault Bool

namespace Workshop

/-- Chunks cut by size after the time has run out. -/
def lateChunks (w : Workshop) (code : Text) : Except IndexFault (List Chunk × Bool) :=
  match fallbackChunks? code w.options.maxSize with
  | .ok cs => .ok (cs, true)
  | .error _ => .error .tooLarge

/-- The chunks of a code, and whether the time ran out. Only a parser that never answers takes
longer than any limit. -/
def chunk (w : Workshop) (path : Path) (code : Text) (limited : Bool) (s : Session) :
    Except IndexFault (List Chunk × Bool) × Session :=
  match (w.toolbox.chunk code path w.options).run s with
  | (.ok cs, s) => (.ok (cs, false), s)
  | (.error .hangs, s) => (if limited then w.lateChunks code else .error .hangs, s)
  | (.error .tooLarge, s) => (.error .tooLarge, s)

variable {σ : Type}

def chunkStep (w : Workshop) (path : Path) (code : Text) : Indexing σ (List Chunk × Bool) := do
  let limited ← MonadExcept.ofExcept w.limited
  let (s, x) ← get
  let (r, s) := w.chunk path code limited s
  set (s, x)
  MonadExcept.ofExcept r

/-- Hands an entry to the sink, if there is one. -/
def putStep (sink : Option (Sink σ)) (code : Text) (e : IndexEntry) :
    Indexing σ (Except IndexFailure IndexEntry) := do
  match sink with
  | none => return .ok e
  | some k =>
    let (s, x) ← get
    let (r, x) := k.put e.path code e.language e.chunks x
    set (s, x)
    match r with
    | .ok _ => return .ok e
    | .error t => return .error ⟨e.path, t⟩

/-- One file: it becomes an entry or a failure. -/
def processFile (w : Workshop) (sink : Option (Sink σ)) (p : Path) :
    Indexing σ (Except IndexFailure IndexEntry) := do
  match w.files.text p with
  | .error (.zeroByte _) => throw .zeroByte
  | .error e => return .error ⟨p, e.message⟩
  | .ok code =>
    let (cs, timedOut) ← w.chunkStep p code
    putStep sink code ⟨p, w.toolbox.languages.detect p, timedOut, cs⟩

/-- The files in turn: entries and failures, each in order. -/
def process (w : Workshop) (sink : Option (Sink σ)) :
    List Path → Indexing σ (List IndexEntry × List IndexFailure)
  | [] => return ([], [])
  | p :: ps => do
    let r ← w.processFile sink p
    let (es, fs) ← w.process sink ps
    match r with
    | .ok e => return (e :: es, fs)
    | .error f => return (es, f :: fs)

end Workshop

/-! ## The summary of a run -/

def nameOrNull : Option String → Json
  | some s => .str s
  | none => .null

def IndexEntry.toJson (e : IndexEntry) : Json := .obj [
  ("path", .str e.path),
  ("language", nameOrNull e.language),
  ("timed_out", .bool e.timedOut),
  ("chunks", .arr (e.chunks.map Chunk.toJson))]

def IndexFailure.toJson (f : IndexFailure) : Json := .obj [
  ("path", .str f.path),
  ("error", .str f.error)]

/-- What a run did with each of its files. -/
structure Summary where
  options : Options
  entries : List IndexEntry
  failures : List IndexFailure
  skipped : List Path
  persisted : Bool

namespace Summary

def chunkCount (s : Summary) : Nat := total (s.entries.map (·.chunks.length))

def optionsJson (o : Options) : Json := .obj [
  ("max_chunk_size", .int o.maxSize),
  ("min_chunk_size", .int o.minSize),
  ("preserve_context", .bool o.preserveContext),
  ("parse_embedded", .bool o.parseEmbedded)]

def toJson (s : Summary) : Json := .obj [
  ("options", optionsJson s.options),
  ("processed_files", .int s.entries.length),
  ("processed_chunks", .int s.chunkCount),
  ("persisted", .bool s.persisted),
  ("skipped_binary", .arr (s.skipped.map .str)),
  ("failed", .arr (s.failures.map IndexFailure.toJson)),
  ("files", .arr (s.entries.map IndexEntry.toJson))]

end Summary

end CodeChunks
