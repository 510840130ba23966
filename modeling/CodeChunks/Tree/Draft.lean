import CodeChunks.Tree.Basic

/-! # Trees in the making -/
namespace CodeChunks

/-- A tree to which nodes are added one by one, parents before their children. -/
structure Draft where
  language : String
  source : Text
  nodes : Array Node := #[]

namespace Draft

/-- Adds a node under the next number. Under a parent that is not there yet the node is added all
the same, as nobody's child, and the call fails. -/
def add (d : Draft) (type : String) (span : Option Span) (parent : Option Int)
    (data : Json.Fields) : Except Tree.Fault Int × Draft :=
  let id : Int := d.nodes.size
  let nodes := d.nodes.push { id, type, span, parent, data }
  match parent with
  | none => (.ok id, { d with nodes })
  | some p =>
    if 0 ≤ p ∧ p < id then
      (.ok id, { d with
        nodes := nodes.modify p.toNat fun n => { n with children := n.children ++ [id] } })
    else (.error (.unknownParent p), { d with nodes })

def setDatum (d : Draft) (id : Int) (key : String) (v : Json) : Except Tree.Fault Draft :=
  match index? d.nodes.size id with
  | some i => .ok { d with
      nodes := d.nodes.modify i fun n => { n with data := Assoc.insert key v n.data } }
  | none => .error .noSuchNode

/-- The tree below a node without a parent; an empty draft takes any root. -/
def finish (d : Draft) (root : Int) : Except Tree.Fault Tree :=
  let t : Tree := ⟨d.language, d.source, root, d.nodes⟩
  if d.nodes.isEmpty then .ok t else
    match (index? d.nodes.size root).bind (d.nodes[·]?) with
    | none => .error .noSuchNode
    | some n => if n.parent.isSome then .error .rootHasParent else .ok t

end Draft

/-- A node given by character offsets. -/
structure OutlineEntry where
  type : String
  range : Option (Int × Int)
  parent : Option Int
  data : Json.Fields := []

/-- The nodes of a tree, parents before their children, with the source still open. -/
abbrev Outline := List OutlineEntry

namespace Outline

def addEntry (ix : LineIndex) (d : Draft) (e : OutlineEntry) : Except Tree.Fault Draft := do
  let span ← match e.range with
    | none => .ok none
    | some (start, stop) => (Tree.spanAt ix start stop).map some
  match d.add e.type span e.parent e.data with
  | (.ok _, d) => .ok d
  | (.error err, _) => .error err

def draft (o : Outline) (language : String) (source : Text) : Except Tree.Fault Draft :=
  o.foldlM (addEntry (.ofText source)) { language, source }

/-- The tree that the outline describes over a source, under the root with the given number, which
need not exist. -/
def tree (o : Outline) (language : String) (source : Text) (root : Int) :
    Except Tree.Fault Tree := do
  let d ← o.draft language source
  return ⟨language, source, root, d.nodes⟩

end Outline

end CodeChunks
