import CodeChunks.Json.Value
import CodeChunks.Text.Cut

/-! # Chunks and the options of chunking -/

/-! ## Chunks -/
namespace CodeChunks

/-- A part of a source with the lines it stands on, both ends included and counted from one. -/
structure Chunk where
  content : Text
  type : String
  startLine : Int
  endLine : Int
  metadata : Json.Fields := []

namespace Chunk

def flag (c : Chunk) (key : String) : Bool := ((Assoc.find? key c.metadata).getD .null).truthy

/-- A chunk that is no piece of a node cut by size; it is never merged. -/
def isSemantic (c : Chunk) : Bool := !c.flag "split"

def isFallback (c : Chunk) : Bool := c.flag "fallback"

/-- Equality that leaves the metadata out. -/
def sameText (c d : Chunk) : Bool :=
  c.content == d.content && c.type == d.type && c.startLine == d.startLine &&
    c.endLine == d.endLine

def set (c : Chunk) (key : String) (v : Json) : Chunk :=
  { c with metadata := Assoc.insert key v c.metadata }

def toJson (c : Chunk) : Json := .obj [
  ("content", .str (String.ofList c.content)),
  ("type", .str c.type),
  ("startLine", .int c.startLine),
  ("endLine", .int c.endLine),
  ("metadata", .obj c.metadata)]

end Chunk

/-! ## Options of chunking -/

/-- How large chunks may be, which pieces are merged, and what becomes a chunk. -/
structure Options where
  maxSize : Budget := 1000
  minSize : Nat := 100
  preserveContext : Bool := true
  nodeTypes : Option (List String) := none
  parseEmbedded : Bool := true
  maxSize_pos : 0 < maxSize := by decide

namespace Options

inductive Fault where
  | maxNotPositive
  | minNegative
deriving DecidableEq

def Fault.message : Fault → String
  | .maxNotPositive => "max_chunk_size must be positive"
  | .minNegative => "min_chunk_size must not be negative"

/-- Options with sizes that have yet to be checked, the larger one first. -/
def make? (maxSize minSize : Int) (preserveContext : Bool) (nodeTypes : Option (List String))
    (parseEmbedded : Bool) : Except Fault Options :=
  if h : maxSize < 1 then .error .maxNotPositive
  else if minSize < 0 then .error .minNegative
  else .ok {
    maxSize := maxSize.toNat, minSize := minSize.toNat, preserveContext, nodeTypes, parseEmbedded
    maxSize_pos := show (0 : Nat) < maxSize.toNat by omega }

end Options

end CodeChunks
