import CodeChunks.Chunk.Pipeline
import CodeChunks.Chunk.Split
import CodeChunks.Proofs.Tree.Anchors
import Mathlib.Data.List.Basic
import Mathlib.Logic.Relation

/-! # Where the chunks of a tree are cut from

The work stack splits a node as the recursion on its children does, so that the chunks can be told
from the cuts that the recursion makes. -/
namespace CodeChunks.Tree

variable (t : Tree) (size : Budget)

/-- Induction from the children of a node to the node. -/
theorem below_induction {P : Node → Prop} (step : ∀ n, (∀ c ∈ t.below n, P c) → P n) (n : Node) :
    P n :=
  step n fun c _ => below_induction step c
termination_by (t.nodes.size - n.id).toNat
decreasing_by exact lt_of_mem_below ‹_›

/-- In a tree made node by node no child is passed over. -/
theorem Made.below_eq {t : Tree} {good : Span → Prop} (h : t.Made good) {n : Node}
    (hn : n ∈ t.nodes) : t.below n = t.children n := by
  apply List.filter_eq_self.mpr
  intro c hc
  simpa using h.lt_of_mem_children hn hc

def childChunks (c : Node) : List Chunk :=
  match c.span with
  | none => []
  | some s =>
    if size < (t.textOf c).length then t.splitDown size c else [nodeChunk c s (t.textOf c)]

theorem splitDown_eq (n : Node) : t.splitDown size n =
    if (t.works size n).isEmpty then t.pieces size n
    else (t.below n).flatMap (t.childChunks size) := by
  rw [splitDown, List.flatMap]
  congr 2
  exact List.attach_map_val (l := t.below n) (f := t.childChunks size) ▸ rfl

def Work.chunks : Work → List Chunk
  | .split n => t.splitDown size n
  | .emit n s content => [nodeChunk n s content]

theorem flatMap_works (n : Node) :
    (t.works size n).flatMap (Work.chunks t size) = (t.below n).flatMap (t.childChunks size) := by
  rw [works]
  induction t.below n with
  | nil => rfl
  | cons c cs ih =>
    cases hs : c.span with
    | none => simp [hs, childChunks, ih]
    | some s =>
      simp only [List.filterMap_cons, hs, Option.map_some, List.flatMap_cons, ih, childChunks]
      split <;> rfl

/-- The works on the stack come to the chunks of each in turn. -/
theorem drain_eq_flatMap (ws : List Work) : t.drain size ws = ws.flatMap (Work.chunks t size) := by
  induction ws using drain.induct t size with
  | case1 => rw [drain, List.flatMap_nil]
  | case2 n s content ws ih => rw [drain, ih, List.flatMap_cons, Work.chunks, List.singleton_append]
  | case3 n ws h ih =>
    rw [drain, if_pos h, ih, List.flatMap_cons, Work.chunks, splitDown_eq, if_pos h]
  | case4 n ws h ih =>
    rw [drain, if_neg h, ih, List.flatMap_append, List.flatMap_cons, Work.chunks, splitDown_eq,
      if_neg h, flatMap_works]

theorem splitNode_eq_splitDown (n : Node) : t.splitNode size n = t.splitDown size n := by
  rw [splitNode, drain_eq_flatMap]
  simp [Work.chunks]

end CodeChunks.Tree

namespace CodeChunks

/-- What a chunk is cut from: a top node that fits with the context before it, a node below one
that does not, or a range of the text of a node without children to speak of. -/
inductive Cut where
  | top (n : Node) (s : Span)
  | whole (n : Node) (s : Span)
  | piece (n : Node) (index : Nat) (range : Int × Int)

namespace Cut

def chunk (t : Tree) (context : Text) : Cut → Chunk
  | .top n s => nodeChunk n s (context ++ t.textOf n)
  | .whole n s => nodeChunk n s (t.textOf n)
  | .piece n i r => {
      content := slice (t.textOf n) r.1 r.2
      type := s!"{n.type}[{i}]"
      startLine := ((n.span.map (·.start.line)).getD 0) + (LineIndex.ofText (t.textOf n)).line r.1
      endLine := ((n.span.map (·.start.line)).getD 0) +
        (LineIndex.ofText (t.textOf n)).lastLine r.1 r.2
      metadata := [("split", .bool true), ("index", .int i)] }

/-- The offsets in the source between which the cut lies. -/
def bounds : Cut → Nat × Nat
  | .top _ s => (s.start.offset.toNat, s.stop.offset.toNat)
  | .whole _ s => (s.start.offset.toNat, s.stop.offset.toNat)
  | .piece n _ r =>
    let base := (n.span.map (·.start.offset)).getD 0
    ((base + r.1).toNat, (base + r.2).toNat)

end Cut

namespace Tree

/-- The context that goes before each top node. -/
def lead (t : Tree) (l : Option Language) (o : Options) : Text :=
  if o.preserveContext then t.context l else []

def chosen (t : Tree) (l : Option Language) (o : Options) : List Node :=
  match t.root? with
  | none => []
  | some root => (t.topNodes l root).filter fun n => n.span.isSome && isChosen l o n.type

def pieceCuts (t : Tree) (size : Budget) (n : Node) : List Cut :=
  ((t.textOf n).cutRanges size).zipIdx.map fun (r, i) => .piece n i r

/-- The cuts of a node that is too large. -/
def cutsDown (t : Tree) (size : Budget) (n : Node) : List Cut :=
  if (t.works size n).isEmpty then t.pieceCuts size n
  else ((t.below n).attach.map fun c => match c.1.span with
    | none => []
    | some s =>
      if size < (t.textOf c.1).length then cutsDown t size c.1 else [.whole c.1 s]).flatten
termination_by (t.nodes.size - n.id).toNat
decreasing_by exact lt_of_mem_below c.2

def topCuts (t : Tree) (size : Budget) (context : Text) (n : Node) : List Cut :=
  match n.span with
  | none => []
  | some s =>
    if size < (context ++ t.textOf n).length then t.cutsDown size n else [.top n s]

def cuts (t : Tree) (l : Option Language) (o : Options) : List Cut :=
  (t.chosen l o).flatMap (t.topCuts o.maxSize (t.lead l o))

section

variable (t : Tree) (size : Budget)

def childCuts (c : Node) : List Cut :=
  match c.span with
  | none => []
  | some s => if size < (t.textOf c).length then t.cutsDown size c else [.whole c s]

theorem cutsDown_eq (n : Node) : t.cutsDown size n =
    if (t.works size n).isEmpty then t.pieceCuts size n
    else (t.below n).flatMap (t.childCuts size) := by
  rw [cutsDown, List.flatMap]
  congr 2
  exact List.attach_map_val (l := t.below n) (f := t.childCuts size) ▸ rfl

/-- A child of a large node is cut down itself if it is too large, and cut as a whole if not. -/
theorem mem_childCuts_iff {c : Node} {k : Cut} : k ∈ t.childCuts size c ↔
    ∃ s, c.span = some s ∧ (size < (t.textOf c).length ∧ k ∈ t.cutsDown size c ∨
      (t.textOf c).length ≤ size ∧ k = .whole c s) := by
  rw [childCuts]
  cases c.span with
  | none => simp
  | some s =>
    by_cases large : size < (t.textOf c).length
    · simp [large, Nat.not_le.mpr large]
    · simp [large, Nat.le_of_not_lt large]

/-- A top node is cut down if it is too large after the context, and cut as a whole if not. -/
theorem mem_topCuts_iff {context : Text} {n : Node} {k : Cut} : k ∈ t.topCuts size context n ↔
    ∃ s, n.span = some s ∧ (size < (context ++ t.textOf n).length ∧ k ∈ t.cutsDown size n ∨
      (context ++ t.textOf n).length ≤ size ∧ k = .top n s) := by
  rw [topCuts]
  cases n.span with
  | none => simp
  | some s =>
    dsimp only
    by_cases large : size < (context ++ t.textOf n).length
    · simp [-List.length_append, large, Nat.not_le.mpr large]
    · simp [-List.length_append, large, Nat.le_of_not_lt large]

/-- The top nodes are the children of the root, or of a wrapper that is its only child. -/
theorem topNodes_cases (l : Option Language) (root : Node) :
    t.topNodes l root = t.children root ∨
      ∃ m ∈ t.children root, t.topNodes l root = t.children m := by
  rcases hchildren : t.children root with _ | ⟨n, _ | ⟨m, ns⟩⟩
  · simp [topNodes, hchildren]
  · cases l with
    | none => simp [topNodes, hchildren]
    | some l =>
      by_cases hwrapper : l.wrappers.contains n.type && !n.children.isEmpty
      · refine .inr ⟨n, List.mem_singleton_self n, ?_⟩
        simp only [topNodes, hchildren, if_pos hwrapper]
      · exact .inl (by simp only [topNodes, hchildren, if_neg hwrapper])
  · simp [topNodes, hchildren]

theorem pieces_eq_map (context : Text) (n : Node) :
    t.pieces size n = (t.pieceCuts size n).map (Cut.chunk t context) := by
  simp only [pieces, pieceCuts, List.map_map]
  rfl

theorem splitDown_eq_map (context : Text) (n : Node) :
    t.splitDown size n = (t.cutsDown size n).map (Cut.chunk t context) := by
  induction n using t.below_induction with
  | step n ih =>
    rw [splitDown_eq, cutsDown_eq]
    split
    · exact t.pieces_eq_map size context n
    · rw [List.map_flatMap]
      apply List.flatMap_congr
      intro c hc
      rw [childChunks, childCuts]
      cases c.span with
      | none => rfl
      | some s =>
        dsimp only
        split
        · exact ih c hc
        · rfl

theorem topChunks_eq_map (o : Options) (context : Text) {n : Node} {s : Span}
    (hs : n.span = some s) :
    t.topChunks o context n s = (t.topCuts o.maxSize context n).map (Cut.chunk t context) := by
  simp only [topChunks, topCuts, hs, splitNode_eq_splitDown, t.splitDown_eq_map o.maxSize context n]
  split <;> rfl

theorem extract_eq_map (l : Option Language) (o : Options) :
    t.extract l o = (t.cuts l o).map (Cut.chunk t (t.lead l o)) := by
  rw [extract, cuts, chosen]
  cases t.root? with
  | none => rfl
  | some root =>
    dsimp only
    induction t.topNodes l root with
    | nil => rfl
    | cons n ns ih =>
      rw [List.flatMap_cons, ih]
      cases hs : n.span with
      | none => simp [hs]
      | some s =>
        by_cases hc : isChosen l o n.type
        · simp [hs, hc, lead, t.topChunks_eq_map o _ hs]
        · simp [hc]

end

end Tree

end CodeChunks
