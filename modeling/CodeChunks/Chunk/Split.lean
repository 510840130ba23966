import CodeChunks.Chunk.Basic
import CodeChunks.Lists
import CodeChunks.Text.Cut
import CodeChunks.Tree.Basic

/-! # Pieces of nodes and of plain texts -/

/-! ## Chunks without structure -/
namespace CodeChunks

/-- The pieces of a text cut to a size, numbered from zero. -/
def fallbackChunks (code : Text) (size : Budget) : List Chunk :=
  let ix := LineIndex.ofText code
  (code.cutRanges size).zipIdx.map fun (r, i) => {
    content := slice code r.1 r.2
    type := "text"
    startLine := ix.line r.1
    endLine := ix.lastLine r.1 r.2
    metadata := [("fallback", .bool true), ("index", .int i)] }

def fallbackChunks? (code : Text) (size : Int) : Except Budget.TooLarge (List Chunk) :=
  Budget.guard size code.isEmpty (fallbackChunks code)

/-- A whole code in which no node became a chunk. -/
def wholeChunk (code : Text) : Chunk where
  content := code
  type := "unknown"
  startLine := 1
  endLine := (LineIndex.ofText code).lineCount
  metadata := [("fallback", .bool true), ("reason", .str "no-semantic-boundaries")]

/-! ## Splitting nodes that are too large -/

/-- A node as one chunk, with its data as metadata. -/
def nodeChunk (n : Node) (s : Span) (content : Text) : Chunk where
  content := content
  type := n.type
  startLine := s.firstLine
  endLine := s.lastLine
  metadata := n.data

namespace Tree

/-- A node cut by size into numbered pieces; without a span its lines count from one. -/
def pieces (t : Tree) (size : Budget) (n : Node) : List Chunk :=
  let text := t.textOf n
  let ix := LineIndex.ofText text
  let base := (n.span.map (·.start.line)).getD 0
  (text.cutRanges size).zipIdx.map fun (r, i) => {
    content := slice text r.1 r.2
    type := s!"{n.type}[{i}]"
    startLine := base + ix.line r.1
    endLine := base + ix.lastLine r.1 r.2
    metadata := [("split", .bool true), ("index", .int i)] }

/-- The children of a node that stand after it in the table, as they all do in a drafted tree. -/
def below (t : Tree) (n : Node) : List Node :=
  (t.children n).filter fun c => n.id < c.id && c.id < t.nodes.size

theorem lt_of_mem_below {t : Tree} {n c : Node} (h : c ∈ t.below n) :
    (t.nodes.size - c.id).toNat < (t.nodes.size - n.id).toNat := by
  simp only [below, List.mem_filter, Bool.and_eq_true, decide_eq_true_eq] at h
  omega

/-- A node to be split, or one that fits and becomes a chunk. -/
inductive Work where
  | split (n : Node)
  | emit (n : Node) (s : Span) (content : Text)

/-- What is to be done with the children that have a span. -/
def works (t : Tree) (size : Budget) (n : Node) : List Work :=
  (t.below n).filterMap fun c => c.span.map fun s =>
    if size < (t.textOf c).length then .split c else .emit c s (t.textOf c)

/-- The number of steps below a node. -/
def weight (t : Tree) (n : Node) : Nat :=
  1 + total ((t.below n).attach.map fun c => weight t c.1)
termination_by (t.nodes.size - n.id).toNat
decreasing_by exact lt_of_mem_below c.2

def Work.weight (t : Tree) : Work → Nat
  | .split n => t.weight n
  | .emit _ _ _ => 1

def load (t : Tree) (ws : List Work) : Nat := total (ws.map (Work.weight t))

theorem weight_eq (t : Tree) (n : Node) :
    t.weight n = 1 + total ((t.below n).map t.weight) := by
  rw [weight]
  congr 2
  exact List.attach_map_val (l := t.below n) (f := t.weight) ▸ rfl

private theorem weight_pos (t : Tree) (n : Node) : 0 < t.weight n := by
  rw [weight_eq]
  omega

private theorem load_works_le (t : Tree) (size : Budget) (cs : List Node) :
    t.load (cs.filterMap fun c => c.span.map fun s =>
      if size < (t.textOf c).length then .split c else .emit c s (t.textOf c)) ≤
    total (cs.map t.weight) := by
  induction cs with
  | nil => simp [load]
  | cons c cs ih =>
    simp only [List.filterMap_cons, List.map_cons, total_cons]
    cases c.span with
    | none => simp only [Option.map_none]; omega
    | some s =>
      simp only [Option.map_some]
      have hp := weight_pos t c
      split <;> simp only [load, List.map_cons, total_cons, Work.weight] at ih ⊢ <;> omega

private theorem load_split_lt (t : Tree) (size : Budget) (n : Node) (ws : List Work) :
    t.load (t.works size n ++ ws) < t.load (.split n :: ws) := by
  have h := load_works_le t size (t.below n)
  have hw := weight_eq t n
  simp only [load, works, List.map_append, total_append, List.map_cons, total_cons,
    Work.weight] at h hw ⊢
  omega

/-- Does the works in turn, those of a node's children before the others. -/
def drain (t : Tree) (size : Budget) : List Work → List Chunk
  | [] => []
  | .emit n s content :: ws => nodeChunk n s content :: drain t size ws
  | .split n :: ws =>
    if (t.works size n).isEmpty then t.pieces size n ++ drain t size ws
    else drain t size (t.works size n ++ ws)
termination_by ws => t.load ws
decreasing_by
  · simp only [load, List.map_cons, total_cons, Work.weight]; omega
  · have := weight_pos t n
    simp only [load, List.map_cons, total_cons, Work.weight]; omega
  · exact load_split_lt ..

/-- The chunks of a node that is too large: its children whole where they fit, split where they do
not, and its pieces where it has no children to speak of. -/
def splitNode (t : Tree) (size : Budget) (n : Node) : List Chunk := t.drain size [.split n]

/-- The same chunks by recursion on the tree. -/
def splitDown (t : Tree) (size : Budget) (n : Node) : List Chunk :=
  if (t.works size n).isEmpty then t.pieces size n
  else ((t.below n).attach.map fun c => match c.1.span with
    | none => []
    | some s =>
      if size < (t.textOf c.1).length then splitDown t size c.1
      else [nodeChunk c.1 s (t.textOf c.1)]).flatten
termination_by (t.nodes.size - n.id).toNat
decreasing_by exact lt_of_mem_below c.2

def pieces? (t : Tree) (size : Int) (n : Node) : Except Budget.TooLarge (List Chunk) :=
  Budget.guard size (t.textOf n).isEmpty fun b => t.pieces b n

/-- Whether some node has a text of its own to be cut when no node below `n` fits. -/
def hasTextBelow (t : Tree) (n : Node) : Bool :=
  if (t.works 0 n).isEmpty then !(t.textOf n).isEmpty
  else (t.below n).attach.any fun c => c.1.span.isSome && hasTextBelow t c.1
termination_by (t.nodes.size - n.id).toNat
decreasing_by exact lt_of_mem_below c.2

/-- Under a budget out of range every child fits, so that only the node itself can be cut. Under a
size below zero no child fits, not even an empty one. -/
def splitNode? (t : Tree) (size : Int) (n : Node) : Except Budget.TooLarge (List Chunk) :=
  if size < 0 then Budget.guard size (!t.hasTextBelow n) fun _ => []
  else Budget.guard size ((t.textOf n).isEmpty || !(t.works 0 n).isEmpty) fun b => t.splitNode b n

end Tree

/-! ## Merging small pieces -/

namespace Chunk

/-- A piece cut by size that is shorter than `least`. -/
def isSmall (least : Nat) (c : Chunk) : Bool := !c.isSemantic && c.content.length < least

/-- Two pieces with an empty line between them. -/
def join (c d : Chunk) : Chunk where
  content := c.content ++ '\n' :: '\n' :: d.content
  type := c.type ++ "+" ++ d.type
  startLine := c.startLine
  endLine := d.endLine
  metadata := Assoc.insert "merged" (.bool true) c.metadata

end Chunk

/-- Merging with a piece held back, if there is one: a small chunk joins a held small one, and any
other chunk lets it go. -/
def mergeFrom (least : Nat) : Option Chunk → List Chunk → List Chunk
  | none, [] => []
  | some b, [] => [b]
  | none, c :: cs =>
    if c.isSmall least then mergeFrom least (some c) cs else c :: mergeFrom least none cs
  | some b, c :: cs =>
    if c.isSmall least then
      if b.isSmall least then mergeFrom least (some (b.join c)) cs
      else b :: mergeFrom least (some c) cs
    else b :: c :: mergeFrom least none cs

/-- Joins runs of neighbouring small pieces as long as what is joined stays small. -/
def mergeSmall (least : Nat) (cs : List Chunk) : List Chunk := mergeFrom least none cs

end CodeChunks
