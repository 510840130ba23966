import CodeChunks.Chunk.Basic
import CodeChunks.Chunk.Split
import CodeChunks.Language.Config
import CodeChunks.Parser.Session
import CodeChunks.Text.Basic

/-! # From a source to its chunks -/

/-! ## Fenced blocks -/
namespace CodeChunks.Fence

def isTail (c : Char) : Bool := c == ' ' || c == '\t'

/-- A line closes a fence when it is the marker followed by spaces and tabs only. -/
def closes (marker line : Text) : Bool :=
  line.startsWith marker && (line.drop marker.length).all isTail

/-- The lines before the first closing one. -/
def untilClosed (marker : Text) : List Text → Option (List Text)
  | [] => none
  | l :: ls => if closes marker l then some [] else (untilClosed marker ls).map (l :: ·)

/-- The lines enclosed by a marker: at least one, the first of which may look like anything. -/
def enclosed (marker : Text) : List Text → Option (List Text)
  | [] => none
  | l :: ls => (untilClosed marker ls).map (l :: ·)

/-- The markers that a line opens, the longest first: at least three copies of a fence character. -/
def markers : Text → List Text
  | [] => []
  | c :: t =>
    if c = '\x60' ∨ c = '~' then
      let n := ((c :: t).takeWhile (· == c)).length
      ((List.range (n + 1 - 3)).reverse).map fun k => List.replicate (k + 3) c
    else []

/-- What the first line that opens a fence and finds it closed encloses. -/
def firstEnclosed : List Text → Option (List Text)
  | [] => none
  | l :: ls => match (markers l).findSome? (enclosed · ls) with
    | some ps => some ps
    | none => firstEnclosed ls

/-- The lines between the fences, or the whole text when no fence is closed. -/
def payload (t : Text) : Text :=
  match firstEnclosed t.lines with
  | some ps => Text.unlines ps
  | none => t

end CodeChunks.Fence

/-! ## Chunks of a tree -/
namespace CodeChunks.Tree

/-- The children of the root, or those of its only child where that is a wrapper. -/
def topNodes (t : Tree) (l : Option Language) (root : Node) : List Node :=
  match t.children root, l with
  | [n], some l => if l.wrappers.contains n.type && !n.children.isEmpty then t.children n else [n]
  | ns, _ => ns

/-- The text of the context nodes, a line each, and an empty line. -/
def context (t : Tree) (l : Option Language) : Text :=
  let c := ['\n'].intercalate ((Language.contextNodes l t).map t.textOf)
  if c.isEmpty then [] else c ++ ['\n', '\n']

/-- The given node types, if any, are chosen instead of the boundaries of the language. -/
def isChosen (l : Option Language) (o : Options) (type : String) : Bool :=
  match o.nodeTypes with
  | some ts => ts.contains type
  | none => Language.isBoundary l type

/-- A top node with the context before it, or split without the context when that is too large. -/
def topChunks (t : Tree) (o : Options) (context : Text) (n : Node) (s : Span) : List Chunk :=
  let content := context ++ t.textOf n
  if o.maxSize < content.length then t.splitNode o.maxSize n else [nodeChunk n s content]

/-- The chunks of the chosen top nodes; a node without a span is passed over. -/
def extract (t : Tree) (l : Option Language) (o : Options) : List Chunk :=
  match t.root? with
  | none => []
  | some root =>
    let context := if o.preserveContext then t.context l else []
    (t.topNodes l root).flatMap fun n => match n.span with
      | none => []
      | some s => if isChosen l o n.type then t.topChunks o context n s else []

end CodeChunks.Tree

/-! ## Chunking a code, and the code embedded in it -/
namespace CodeChunks

def Options.flat (o : Options) : Options := { o with parseEmbedded := false }

/-- A chunk of embedded code on the lines of its host, marked with what it is embedded in. -/
def Chunk.moveInto (host : Chunk) (language : String) (c : Chunk) : Chunk :=
  let shift := host.startLine - 1
  { c with
    startLine := c.startLine + shift
    endLine := c.endLine + shift
    metadata := Assoc.insert "embeddedLanguage" (.str language)
      (Assoc.insert "embeddedIn" (.str host.type) c.metadata) }

/-- The name under which the code that a chunk hosts is chunked on its own, if it is. -/
def Chunk.hosted? (l : Option Language) (c : Chunk) : Except EmbeddingFault (Option Json) :=
  match (Language.embedding? l c.type).filter (·.recursive) with
  | none => .ok none
  | some r => do
    let v ← r.detect c.metadata
    if !v.truthy then return none
    else if !v.isHashable then .error (.unhashable v.kind)
    else return if v.string?.any plainTextNames.contains then none else some v

namespace Toolbox

def fallback (code : Text) (size : Budget) : Run (List Chunk) :=
  match fallbackChunks? code size with
  | .ok cs => return cs
  | .error _ => throw .tooLarge

/-- A run that also ends early when the language of embedded code cannot be told. -/
abbrev Expansion := ExceptT EmbeddingFault Run (List Chunk)

/-- Chunks a code in the language that a path or a name points to; `expand` has its turn between
extraction and merging. Without a language, a parser or a tree, or when `expand` fails, the code is
cut by size. -/
def chunkWith (b : Toolbox) (expand : Option Language → List Chunk → Expansion)
    (code : Text) (path : String) (o : Options) : Run (List Chunk) := do
  if code.allBlank then return []
  match b.languages.detect path with
  | none => fallback code o.maxSize
  | some name =>
    let l := b.languages.find? name
    match ← b.parse code name ((l.map (·.options)).getD []) with
    | none => fallback code o.maxSize
    | some .malformed => fallback code o.maxSize
    | some (.tree t) =>
      match ← (expand l (t.extract l o)).run with
      | .error _ => fallback code o.maxSize
      | .ok cs =>
        let cs := mergeSmall o.minSize cs
        return if cs.isEmpty then [wholeChunk code] else cs

/-- Chunking that leaves embedded code alone. -/
def chunkFlat (b : Toolbox) : Text → String → Options → Run (List Chunk) :=
  b.chunkWith fun _ cs => return cs

/-- The chunks of the code that a host holds, or the host itself when that code has no structure. -/
def expandHost (b : Toolbox) (l : Option Language) (o : Options) (host : Chunk) : Expansion := do
  let code := Fence.payload host.content
  match ← MonadExcept.ofExcept (host.hosted? l) with
  | none => return [host]
  | some (.str name) =>
    match ← (b.chunkFlat code name o.flat : Run _) with
    | [] => return [host]
    | c :: cs => return if c.isFallback then [host] else (c :: cs).map (host.moveInto name)
  | some v => if code.allBlank then return [host] else throw (.noName v.kind)

def expandHosts (b : Toolbox) (l : Option Language) (o : Options) : List Chunk → Expansion
  | [] => return []
  | c :: cs => do return (← b.expandHost l o c) ++ (← b.expandHosts l o cs)

/-- Chunking with embedded code unwound once. -/
def chunk (b : Toolbox) (code : Text) (path : String) (o : Options) : Run (List Chunk) :=
  b.chunkWith (fun l cs => if o.parseEmbedded then b.expandHosts l o cs else return cs) code path o

end Toolbox

end CodeChunks
