import CodeChunks.Lists
import CodeChunks.Text.Basic
import CodeChunks.Text.LineIndex
import CodeChunks.Tree.Draft

/-! # Flattening a parse into a table of nodes -/
namespace CodeChunks

/-- A named node of a parse, with byte offsets into the source. -/
inductive GrammarNode where
  | mk (type : String) (start stop : Int) (children : List GrammarNode)

namespace GrammarNode

def type : GrammarNode → String
  | .mk t _ _ _ => t

def start : GrammarNode → Int
  | .mk _ s _ _ => s

def stop : GrammarNode → Int
  | .mk _ _ e _ => e

def children : GrammarNode → List GrammarNode
  | .mk _ _ _ cs => cs

mutual

def size : GrammarNode → Nat
  | .mk _ _ _ cs => 1 + sizeAll cs

def sizeAll : List GrammarNode → Nat
  | [] => 0
  | n :: ns => size n + sizeAll ns

end

/-- A node of a parse listed before its children, under the place of its parent in the list. -/
structure Row where
  type : String
  start : Int
  stop : Int
  parent : Option Nat

/-- The nodes of rows numbered from `i`, and of the places before `i` the children found so far:
`below p` lists those of row `p`. -/
def assemble (i : Nat) : List Row → (Nat → List GrammarNode) × Option GrammarNode
  | [] => (fun _ => [], none)
  | r :: rs =>
    let (below, _) := assemble (i + 1) rs
    let n := GrammarNode.mk r.type r.start r.stop (below i)
    (fun p => if r.parent = some p then n :: below p else below p, some n)

/-- The tree below the first row. -/
def ofRows (rs : List Row) : Option GrammarNode := (assemble 0 rs).2

end GrammarNode

/-- For a node type, the attributes of its nodes and the child type that each is read from; what is
no string is the type of no child. -/
abbrev AttributeTable := List (String × Json.Fields)

/-- What is taken from a parse: the attributes, and the types of nodes that are left out. -/
structure Flattening where
  attributes : AttributeTable := []
  transparent : List String := []

namespace Flattening

/-- The first word of the first child of a type. -/
def attributeText (contents : Bytes) (childType : Json) (n : GrammarNode) : Text :=
  match n.children.find? fun c => childType.string? == some c.type with
  | some c => Text.firstWord (Utf8.decode (slice contents c.start c.stop))
  | none => []

/-- The attributes with something in them. -/
def data (f : Flattening) (contents : Bytes) (n : GrammarNode) : Json.Fields :=
  let wanted := (Assoc.find? n.type f.attributes).getD []
  wanted.foldl (fun fs (key, childType) =>
    match attributeText contents childType n with
    | [] => fs
    | w => Assoc.insert key (.str (String.ofList w)) fs) []

def charOffset (ix : ByteIndex) (b : Int) : Except Tree.Fault Int :=
  (ix.charOffset b).mapError fun _ => .noSuchRow

def span (ix : ByteIndex) (n : GrammarNode) : Except Tree.Fault Span := do
  let start ← charOffset ix n.start
  let stop ← charOffset ix n.stop
  Tree.spanAt ix.charBreaks start stop

/-- Adds a node under a kept one. -/
def keep (f : Flattening) (ix : ByteIndex) (n : GrammarNode) (parent : Option Int) (d : Draft) :
    Except Tree.Fault (Int × Draft) := do
  let s ← span ix n
  match d.add n.type (some s) parent (f.data ix.contents n) with
  | (.ok id, d) => .ok (id, d)
  | (.error e, _) => .error e

/-- A node that waits for its turn, and the kept node above it. -/
structure Waiting where
  node : GrammarNode
  parent : Option Int

/-- Under a kept node, a node of a transparent type gives its place to its children. -/
def isSkipped (f : Flattening) (w : Waiting) : Bool :=
  w.parent.isSome && f.transparent.contains w.node.type

def weight (ws : List Waiting) : Nat := total (ws.map (·.node.size))

theorem weight_append (ws vs : List Waiting) : weight (ws ++ vs) = weight ws + weight vs := by
  simp [weight]

theorem weight_children (ns : List GrammarNode) (p : Option Int) :
    weight (ns.map fun n => ⟨n, p⟩) = GrammarNode.sizeAll ns := by
  induction ns with
  | nil => rfl
  | cons n ns ih =>
    simp only [weight, List.map_cons, total_cons, GrammarNode.sizeAll] at ih ⊢
    omega

theorem sizeAll_children_lt (n : GrammarNode) : GrammarNode.sizeAll n.children < n.size := by
  cases n
  simp only [GrammarNode.children, GrammarNode.size]
  omega

private theorem weight_step (w : Waiting) (ws : List Waiting) (p : Option Int) :
    weight ((w.node.children.map fun n => ⟨n, p⟩) ++ ws) < weight (w :: ws) := by
  rw [weight_append, weight_children]
  have := sizeAll_children_lt w.node
  simp only [weight, List.map_cons, total_cons]
  omega

/-- Takes the waiting nodes in turn, the children of a node before those that waited with it. -/
def drain (f : Flattening) (ix : ByteIndex) (d : Draft) : List Waiting → Except Tree.Fault Draft
  | [] => .ok d
  | w :: ws =>
    if f.isSkipped w then drain f ix d ((w.node.children.map fun n => ⟨n, w.parent⟩) ++ ws)
    else match f.keep ix w.node w.parent d with
      | .error e => .error e
      | .ok (id, d) => drain f ix d ((w.node.children.map fun n => ⟨n, some id⟩) ++ ws)
termination_by ws => weight ws
decreasing_by all_goals exact weight_step ..

mutual

/-- The same table by recursion on the parse. -/
def addNode (f : Flattening) (ix : ByteIndex) (parent : Option Int) (d : Draft) :
    GrammarNode → Except Tree.Fault Draft
  | .mk type start stop cs =>
    if f.isSkipped ⟨.mk type start stop cs, parent⟩ then addAll f ix parent d cs
    else match f.keep ix (.mk type start stop cs) parent d with
      | .error e => .error e
      | .ok (id, d) => addAll f ix (some id) d cs

def addAll (f : Flattening) (ix : ByteIndex) (parent : Option Int) (d : Draft) :
    List GrammarNode → Except Tree.Fault Draft
  | [] => .ok d
  | n :: ns => match addNode f ix parent d n with
    | .error e => .error e
    | .ok d => addAll f ix parent d ns

end

/-- The tree of a parse over its source; the root is kept whatever its type. -/
def tree (f : Flattening) (language : String) (source : Text) (root : GrammarNode) :
    Except Tree.Fault Tree := do
  let d ← f.drain (.ofText source) { language, source } [⟨root, none⟩]
  d.finish 0

end Flattening

end CodeChunks
