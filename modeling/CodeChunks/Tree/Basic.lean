import CodeChunks.Json.Value
import CodeChunks.Text.LineIndex

/-! # Trees of typed nodes over a source text -/
namespace CodeChunks

/-- A place in a text; rows and columns count from zero. -/
structure Position where
  line : Int
  column : Int
  offset : Int
deriving DecidableEq, Repr

structure Span where
  start : Position
  stop : Position
  ordered : start.offset ≤ stop.offset

namespace Span

/-- Two offsets in the wrong order. -/
structure Reversed where
  start : Int
  stop : Int
deriving DecidableEq, Repr

def Reversed.message (e : Reversed) : String := s!"Span start {e.start} is after end {e.stop}"

def make? (start stop : Position) : Except Reversed Span :=
  if h : start.offset ≤ stop.offset then .ok ⟨start, stop, h⟩
  else .error ⟨start.offset, stop.offset⟩

/-- The first line, counted from one. -/
def firstLine (s : Span) : Int := s.start.line + 1

/-- The last line, counted from one. A span that ends before the first column of a later line has
only the newline of the line before. -/
def lastLine (s : Span) : Int :=
  if s.stop.column = 0 ∧ s.start.line < s.stop.line then s.stop.line else s.stop.line + 1

end Span

/-- A node refers to its parent and its children by number. -/
structure Node where
  id : Int
  type : String
  span : Option Span := none
  parent : Option Int := none
  children : List Int := []
  data : Json.Fields := []

/-- The nodes of a tree in one table, the number of a node being its place. -/
structure Tree where
  language : String
  source : Text
  root : Int
  nodes : Array Node

namespace Tree

def node? (t : Tree) (id : Int) : Option Node := if 0 ≤ id then t.nodes[id.toNat]? else none

def root? (t : Tree) : Option Node := t.node? t.root

/-- The children of a node in order; numbers without a node are passed over. -/
def children (t : Tree) (n : Node) : List Node := n.children.filterMap t.node?

/-- The text of a node, empty where it has no span. -/
def textOf (t : Tree) (n : Node) : Text :=
  match n.span with
  | none => []
  | some s => slice t.source s.start.offset s.stop.offset

/-- What keeps a tree from being made from offsets. -/
inductive Fault where
  | offset (e : LineIndex.OutOfRange)
  | span (e : Span.Reversed)
  | unknownParent (id : Int)
  | noSuchNode
  | rootHasParent
  | noSuchRow
deriving DecidableEq, Repr

def Fault.message : Fault → String
  | .offset e => e.message
  | .span e => e.message
  | .unknownParent id => s!"Unknown parent id {id}"
  | .noSuchNode => "list index out of range"
  | .rootHasParent => "Root node must not have a parent"
  | .noSuchRow => "list index out of range"

def positionAt (ix : LineIndex) (o : Int) : Except Fault Position :=
  match ix.point o with
  | .ok (row, column) => .ok ⟨row, column, o⟩
  | .error e => .error (.offset e)

/-- The span between two character offsets. -/
def spanAt (ix : LineIndex) (start stop : Int) : Except Fault Span := do
  let a ← positionAt ix start
  let b ← positionAt ix stop
  (Span.make? a b).mapError .span

end Tree

end CodeChunks
