import CodeChunks.Proofs.Chunk.Origins
import CodeChunks.Proofs.Text.Alignment

/-! # Splitting a node is a recursion on its children

The chunks of a node are its pieces where no child has a span, and else those of its children in
order: a child that fits is one chunk, and one that does not is split in turn. In a tree made node
by node, whatever its spans, one function does this, and every run of the stack on which each node
puts its children comes to an end with the chunks of that function. -/
namespace CodeChunks.Tree

variable {t : Tree} {size : Budget} {good : Span → Prop}

/-- A child with a span is a chunk where it fits, and is left to `split` where it does not. -/
def chunksBy (t : Tree) (size : Budget) (split : Node → List Chunk) (c : Node) : List Chunk :=
  match c.span with
  | none => []
  | some s => if (t.textOf c).length ≤ size then [nodeChunk c s (t.textOf c)] else split c

/-- The function splits each node of the tree into the chunks of its children, or into pieces where
no child has a span. -/
def SplitsBy (t : Tree) (size : Budget) (split : Node → List Chunk) : Prop :=
  ∀ n ∈ t.nodes, split n =
    if (t.children n).all (·.span.isNone) then t.pieces size n
    else (t.children n).flatMap (t.chunksBy size split)

/-- A child with a span that is too large for a chunk. -/
def Overflows (t : Tree) (size : Budget) (n c : Node) : Prop :=
  c ∈ t.children n ∧ c.span.isSome ∧ size < (t.textOf c).length

/-- What a node that is split adds itself: its pieces where no child has a span, and its children
that fit. -/
inductive Yields (t : Tree) (size : Budget) (n : Node) : Chunk → Prop
  | piece (leaf : ∀ c ∈ t.children n, c.span = none) (k : Chunk) (hk : k ∈ t.pieces size n) :
      Yields t size n k
  | whole (c : Node) (s : Span) (hc : c ∈ t.children n) (hs : c.span = some s)
      (fits : (t.textOf c).length ≤ size) : Yields t size n (nodeChunk c s (t.textOf c))

/-- The works of the children of a node, wherever in the table these stand. -/
def childWorks (t : Tree) (size : Budget) (n : Node) : List Work :=
  (t.children n).filterMap fun c => c.span.map fun s =>
    if size < (t.textOf c).length then .split c else .emit c s (t.textOf c)

/-- One round of the stack, with the chunks found before. -/
inductive Round (t : Tree) (size : Budget) :
    List Work × List Chunk → List Work × List Chunk → Prop
  | emit (n : Node) (s : Span) (content : Text) (ws : List Work) (ks : List Chunk) :
      Round t size (.emit n s content :: ws, ks) (ws, ks ++ [nodeChunk n s content])
  | pieces (n : Node) (ws : List Work) (ks : List Chunk) (h : t.childWorks size n = []) :
      Round t size (.split n :: ws, ks) (ws, ks ++ t.pieces size n)
  | children (n : Node) (ws : List Work) (ks : List Chunk) (h : t.childWorks size n ≠ []) :
      Round t size (.split n :: ws, ks) (t.childWorks size n ++ ws, ks)

/-- Wherever a run of the stack stands that began with the node alone, it goes on until the stack is
empty, and then has these chunks. -/
def RunsTo (t : Tree) (size : Budget) (n : Node) (ks : List Chunk) : Prop :=
  ∀ st, Relation.ReflTransGen (t.Round size) ([.split n], []) st →
    Relation.ReflTransGen (t.Round size) st ([], ks)

theorem Round.rightUnique : Relator.RightUnique (t.Round size) := by
  intro a b c hb hc
  cases hb with
  | emit n s content ws ks =>
    cases hc
    rfl
  | pieces n ws ks hnone =>
    cases hc with
    | pieces => rfl
    | children _ _ _ hsome => exact absurd hnone hsome
  | children n ws ks hsome =>
    cases hc with
    | pieces _ _ _ hnone => exact absurd hnone hsome
    | children => rfl

theorem mem_nodes_of_mem_childWorks {n m : Node} (h : Work.split m ∈ t.childWorks size n) :
    m ∈ t.nodes := by
  obtain ⟨c, hc, hwork⟩ := List.mem_filterMap.mp h
  obtain ⟨s, -, hwork⟩ := Option.map_eq_some_iff.mp hwork
  split at hwork
  · cases hwork
    exact mem_nodes_of_mem_children hc
  · cases hwork

theorem mem_chunksBy {split : Node → List Chunk} {c : Node} {k : Chunk} :
    k ∈ t.chunksBy size split c ↔ ∃ s, c.span = some s ∧
      ((t.textOf c).length ≤ size ∧ k = nodeChunk c s (t.textOf c) ∨
        size < (t.textOf c).length ∧ k ∈ split c) := by
  rw [chunksBy]
  cases c.span with
  | none => simp
  | some s =>
    by_cases hfit : (t.textOf c).length ≤ size
    · simp [hfit, Nat.not_lt.mpr hfit]
    · simp [hfit, Nat.lt_of_not_le hfit]

theorem all_isNone_iff (n : Node) :
    (t.children n).all (·.span.isNone) ↔ ∀ c ∈ t.children n, c.span = none := by
  rw [List.all_eq_true]
  simp only [Option.isNone_iff_eq_none]

namespace Made

theorem works_eq (h : t.Made good) {n : Node} (hn : n ∈ t.nodes) :
    t.works size n = t.childWorks size n := by
  rw [works, h.below_eq hn, childWorks]

/-- A stack of nodes of the tree is worked off. No round looks at anything but the top, so the
chunks found before stay in front. -/
theorem rounds_drain (h : t.Made good) (ws : List Work)
    (hws : ∀ n, Work.split n ∈ ws → n ∈ t.nodes) (ks : List Chunk) :
    Relation.ReflTransGen (t.Round size) (ws, ks) ([], ks ++ t.drain size ws) := by
  induction ws using drain.induct t size generalizing ks with
  | case1 =>
    rw [drain, List.append_nil]
  | case2 n s content ws ih =>
    have hrest := ih (fun m hm => hws m (List.mem_cons_of_mem _ hm)) (ks ++ [nodeChunk n s content])
    rw [List.append_assoc, List.singleton_append] at hrest
    rw [drain]
    exact .head (.emit n s content ws ks) hrest
  | case3 n ws hleaf ih =>
    have hrest := ih (fun m hm => hws m (List.mem_cons_of_mem _ hm)) (ks ++ t.pieces size n)
    rw [List.append_assoc] at hrest
    rw [drain, if_pos hleaf]
    rw [h.works_eq (hws n List.mem_cons_self), List.isEmpty_iff] at hleaf
    exact .head (.pieces n ws ks hleaf) hrest
  | case4 n ws hmore ih =>
    have hworks : t.works size n = t.childWorks size n := h.works_eq (hws n List.mem_cons_self)
    rw [drain, if_neg hmore]
    rw [hworks] at hmore ih ⊢
    rw [List.isEmpty_iff] at hmore
    refine .head (.children n ws ks hmore) (ih ?_ ks)
    intro m hm
    rcases List.mem_append.mp hm with hm | hm
    · exact mem_nodes_of_mem_childWorks hm
    · exact hws m (List.mem_cons_of_mem _ hm)

/-- A round is determined by what is there, so no run leaves the way that leads to the end. -/
theorem runsTo (h : t.Made good) {n : Node} (hn : n ∈ t.nodes) :
    t.RunsTo size n (t.splitNode size n) := by
  intro st hst
  have hend : Relation.ReflTransGen (t.Round size) ([.split n], []) ([], t.splitNode size n) :=
    h.rounds_drain [.split n] (by simpa using hn) []
  rcases Relation.ReflTransGen.total_of_right_unique Round.rightUnique hst hend with hrest | hback
  · exact hrest
  · rcases hback.cases_head with rfl | ⟨_, hround, -⟩
    · exact .refl
    · cases hround

theorem splitsBy (h : t.Made good) (size : Budget) : t.SplitsBy size (t.splitNode size) := by
  have hdown : t.splitNode size = t.splitDown size := funext (t.splitNode_eq_splitDown size)
  have hchild : t.childChunks size = t.chunksBy size (t.splitDown size) := by
    funext c
    rw [childChunks, chunksBy]
    cases c.span with
    | none => rfl
    | some s => simp only [← Nat.not_lt, ite_not]
  intro n hn
  have hleaf : (t.works size n).isEmpty ↔ (t.children n).all (·.span.isNone) := by
    rw [works_isEmpty_iff, h.below_eq hn, all_isNone_iff]
  rw [hdown, splitDown_eq, h.below_eq hn, hchild]
  simp only [hleaf]

/-- The equations have one solution on the nodes of the tree: children stand after their parents, so
the last nodes come first. -/
theorem eq_of_splitsBy (h : t.Made good) {f g : Node → List Chunk} (hf : t.SplitsBy size f)
    (hg : t.SplitsBy size g) (n : Node) (hn : n ∈ t.nodes) : f n = g n := by
  induction n using t.below_induction with
  | step n ih =>
    rw [h.below_eq hn] at ih
    rw [hf n hn, hg n hn]
    split
    · rfl
    · apply List.flatMap_congr
      intro c hc
      rw [chunksBy, chunksBy, ih c hc (mem_nodes_of_mem_children hc)]

/-- Only the node itself and children that overflow are split, and all of them are. -/
theorem mem_splitNode_iff (h : t.Made good) {n : Node} (hn : n ∈ t.nodes) {k : Chunk} :
    k ∈ t.splitNode size n ↔
      ∃ m, Relation.ReflTransGen (t.Overflows size) n m ∧ t.Yields size m k := by
  constructor
  · intro hk
    induction n using t.below_induction with
    | step n ih =>
      rw [h.below_eq hn] at ih
      rw [h.splitsBy size n hn] at hk
      by_cases hleaf : (t.children n).all (·.span.isNone)
      · rw [if_pos hleaf] at hk
        exact ⟨n, .refl, .piece ((all_isNone_iff n).mp hleaf) k hk⟩
      · rw [if_neg hleaf] at hk
        obtain ⟨c, hc, hk⟩ := List.mem_flatMap.mp hk
        obtain ⟨s, hs, ⟨hfit, rfl⟩ | ⟨hlarge, hk⟩⟩ := mem_chunksBy.mp hk
        · exact ⟨n, .refl, .whole c s hc hs hfit⟩
        · obtain ⟨m, hm, hyields⟩ := ih c hc (mem_nodes_of_mem_children hc) hk
          exact ⟨m, .head ⟨hc, by rw [hs]; rfl, hlarge⟩ hm, hyields⟩
  · rintro ⟨m, hm, hyields⟩
    induction hm using Relation.ReflTransGen.head_induction_on with
    | refl =>
      rw [h.splitsBy size m hn]
      cases hyields with
      | piece leaf k hk => rwa [if_pos ((all_isNone_iff m).mpr leaf)]
      | whole c s hc hs fits =>
        rw [if_neg fun hleaf => by simp [(all_isNone_iff m).mp hleaf c hc] at hs]
        exact List.mem_flatMap.mpr ⟨c, hc, mem_chunksBy.mpr ⟨s, hs, .inl ⟨fits, rfl⟩⟩⟩
    | @head n c hstep _ ih =>
      obtain ⟨hc, hsome, hlarge⟩ := hstep
      obtain ⟨s, hs⟩ := Option.isSome_iff_exists.mp hsome
      rw [h.splitsBy size n hn,
        if_neg fun hleaf => by simp [(all_isNone_iff n).mp hleaf c hc] at hs]
      exact List.mem_flatMap.mpr
        ⟨c, hc, mem_chunksBy.mpr ⟨s, hs, .inr ⟨hlarge, ih (mem_nodes_of_mem_children hc)⟩⟩⟩

end Made

theorem Yields.length_le (hpos : 1 ≤ size) {n : Node} {k : Chunk} (h : t.Yields size n k) :
    k.content.length ≤ size := by
  cases h with
  | piece leaf k hk =>
    obtain ⟨⟨r, i⟩, hri, rfl⟩ := List.mem_map.mp hk
    exact Text.length_slice_cutRanges _ hpos ((List.mem_zipIdx' hri).2 ▸ List.getElem_mem _)
  | whole c s hc hs fits => exact fits

theorem splitNode?_natCast (hsize : size < 2 ^ 53) (n : Node) :
    t.splitNode? size n = .ok (t.splitNode size n) := by
  rw [splitNode?, if_neg (by omega), Budget.guard_natCast hsize]

/-- In a tree made node by node every run of the work stack ends, and it splits each node as the
recursion on its children does. Its chunks keep to the budget, and it splits no children but those
that do not fit. -/
theorem splitNode_recursive (h : t.Made good) (hpos : 1 ≤ size) (hsize : size < 2 ^ 53) :
    t.SplitsBy size (t.splitNode size) ∧
    (∀ split, t.SplitsBy size split → ∀ n ∈ t.nodes, t.splitNode size n = split n) ∧
    ∀ n ∈ t.nodes, t.splitNode? size n = .ok (t.splitNode size n) ∧
      t.RunsTo size n (t.splitNode size n) ∧
      (∀ k ∈ t.splitNode size n, k.content.length ≤ size) ∧
      ∀ k, k ∈ t.splitNode size n ↔
        ∃ m, Relation.ReflTransGen (t.Overflows size) n m ∧ t.Yields size m k := by
  refine ⟨h.splitsBy size, fun split hsplit => h.eq_of_splitsBy (h.splitsBy size) hsplit, ?_⟩
  intro n hn
  refine ⟨splitNode?_natCast hsize n, h.runsTo hn, ?_, fun k => h.mem_splitNode_iff hn⟩
  intro k hk
  obtain ⟨m, -, hyields⟩ := (h.mem_splitNode_iff hn).mp hk
  exact hyields.length_le hpos

/-- A block as large as the module around it, with two parts that overlap and a mark without a
span. -/
def overlapping : Outline := [
  ⟨"module", some (0, 9), none, []⟩,
  ⟨"block", some (0, 9), some 0, []⟩,
  ⟨"mark", none, some 1, []⟩,
  ⟨"left", some (0, 5), some 1, []⟩,
  ⟨"right", some (2, 9), some 1, []⟩]

def overlappingTree : Tree where
  language := "blocks"
  source := "aaaa\nbbbb".toList
  root := 0
  nodes := #[
    { id := 0, type := "module", span := some ⟨⟨0, 0, 0⟩, ⟨1, 4, 9⟩, by decide⟩, children := [1] },
    { id := 1, type := "block", span := some ⟨⟨0, 0, 0⟩, ⟨1, 4, 9⟩, by decide⟩, parent := some 0
      children := [2, 3, 4] },
    { id := 2, type := "mark", parent := some 1 },
    { id := 3, type := "left", span := some ⟨⟨0, 0, 0⟩, ⟨1, 0, 5⟩, by decide⟩, parent := some 1 },
    { id := 4, type := "right", span := some ⟨⟨0, 2, 2⟩, ⟨1, 4, 9⟩, by decide⟩, parent := some 1 }]

theorem anchored_overlappingTree : overlappingTree.Anchored := by
  have h : overlapping.tree "blocks" overlappingTree.source 0 = .ok overlappingTree := by cbv
  exact Outline.anchored_of_tree h

/-- Under a budget of five the block is split as the module is, its left part stays whole, and only
the right one is cut. -/
theorem splitNode_recursive_overlapping :
    overlappingTree.SplitsBy 5 (overlappingTree.splitNode 5) ∧
    ∃ n ∈ overlappingTree.nodes, n.id = 0 ∧
      overlappingTree.RunsTo 5 n (overlappingTree.splitNode 5 n) ∧
      (overlappingTree.splitNode 5 n).map (·.content) =
        ["aaaa\n".toList, "aa\nbb".toList, "bb".toList] ∧
      ∀ k ∈ overlappingTree.splitNode 5 n, k.content.length ≤ 5 := by
  have hrec := @splitNode_recursive overlappingTree 5 _ anchored_overlappingTree (by decide)
    (by decide)
  obtain ⟨hsplits, -, hnodes⟩ := hrec
  have hn : overlappingTree.nodes[0] ∈ overlappingTree.nodes := Array.getElem_mem _
  obtain ⟨-, hruns, hsizes, -⟩ := hnodes _ hn
  exact ⟨hsplits, _, hn, rfl, hruns, by cbv, hsizes⟩

end CodeChunks.Tree
